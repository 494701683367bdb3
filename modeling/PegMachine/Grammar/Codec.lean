import PegMachine.Grammar.Expr
import PegMachine.Json.Printer

/-!
# Grammars as documents

Both the nested form that grammars are written in and the flat form of the arena are documents.
The flat form spells everything out; in the nested form most members may be left out.
-/

namespace PegMachine

open Json.Decode (Record) in
/-- The record of an alternative that was read before. -/
def heldRecord (names : List String) (content : Json) : Except Json.Fault Record :=
  Json.Decode.record names .held content

/-! ## Parts -/

namespace ClassPart

/-- A part is a text of one character or a pair of such texts. -/
def decode : Json.Decoder ClassPart := fun m j => do
  match ← Json.Decode.hold m j with
  | .arr items =>
    let (first, last) ← Json.Decode.pair Json.Decode.char Json.Decode.char .held (.arr items)
    return .range first last
  | j => return .char (← Json.Decode.char .held j)

/-- The document of a part. -/
def toJson : ClassPart → Json
  | .char c => .str (String.singleton c)
  | .range first last => .arr [.str (String.singleton first), .str (String.singleton last)]

end ClassPart

namespace Param

/-- The kinds of parameters, before their values are known. -/
inductive Kind where
  /-- A bare word. -/
  | keyword
  /-- A quoted text. -/
  | string
  /-- A whole number. -/
  | number
  /-- A range. -/
  | range

/-- The kind that a word names. -/
def Kind.ofName? (word : String) : Option Kind :=
  if word = "keyword" then some .keyword
  else if word = "string" then some .string
  else if word = "number" then some .number
  else if word = "range" then some .range
  else none

/-- The value of a parameter of a kind. -/
def Kind.value (kind : Kind) : Json.Decoder Param := fun m j =>
  match kind with
  | .keyword => (Json.Decode.string m j).map .keyword
  | .string => (Json.Decode.string m j).map .string
  | .number => (Json.Decode.int64 m j).map .number
  | .range =>
    let bound := Json.Decode.option Json.Decode.int64
    (Json.Decode.pair bound bound m j).map fun (min, max) => .range min max

/-- What was read of a parameter so far. -/
inductive Draft where
  /-- Neither kind nor value. -/
  | empty
  /-- The kind. -/
  | kind (k : Kind)
  /-- The value, held until the kind is known. -/
  | value (j : Json)
  /-- Both. -/
  | whole (p : Param)

/-- Take one more member into account. The value is decoded at once if the kind is known. -/
def Draft.read (m : Json.Mode) (d : Draft) (name : String) (j : Json) : Except Json.Fault Draft :=
  if name = "type" then
    match d with
    | .empty => return .kind (← Json.Decode.tag Kind.ofName? m j)
    | .value held => do
      let kind ← Json.Decode.tag Kind.ofName? m j
      return .whole (← kind.value .held held)
    | _ => throw .mismatch
  else if name = "value" then
    match d with
    | .empty => return .value (← Json.Decode.hold m j)
    | .kind k => return .whole (← k.value m j)
    | _ => throw .mismatch
  else do
    Json.Decode.skip j
    return d

/-- Take several members into account. -/
def Draft.readAll (m : Json.Mode) : Draft → List (String × Json) → Except Json.Fault Draft
  | d, [] => .ok d
  | d, (name, j) :: rest => do
    let d ← d.read m name j
    readAll m d rest

/-- Parameters have a kind and a value, in either order. -/
def decode : Json.Decoder Param
  | m, .obj members => do
    match ← Draft.readAll m .empty members with
    | .whole p => return p
    | _ => throw .mismatch
  | m, .arr (kind :: value :: rest) => do
    let kind ← Json.Decode.tag Kind.ofName? m kind
    let p ← kind.value m value
    if rest.isEmpty then return p else throw (Json.Decode.surplus m)
  | m, .arr [kind] => do
    let _ ← Json.Decode.tag Kind.ofName? m kind
    throw .mismatch
  | _, .arr [] => .error .mismatch
  | _, j => .error (Json.Decode.unexpectedInside j)

/-- The document of a parameter. -/
def toJson : Param → Json
  | .keyword word => .obj [("type", .str "keyword"), ("value", .str word)]
  | .string text => .obj [("type", .str "string"), ("value", .str text)]
  | .number n => .obj [("type", .str "number"), ("value", .int n.toInt)]
  | .range min max =>
    .obj [("type", .str "range"),
      ("value", .arr [.opt (.int ·.toInt) min, .opt (.int ·.toInt) max])]

end Param

namespace Annotation

/-- Annotations are records of a name, parameters and a place. -/
def decode : Json.Decoder Annotation := fun m j => do
  let r ← Json.Decode.record ["name", "params", "location"] m j
  let name := r.required "name" Json.Decode.string
  let params := r.defaulted "params" [] (Json.Decode.list Param.decode)
  let location := r.defaulted "location" none (Json.Decode.option Location.decode)
  r.settle [("name", r.outcome name), ("params", r.outcome params),
    ("location", r.outcome location)]
  return ⟨← name, ← params, ← location⟩

/-- The document of an annotation. -/
def toJson (a : Annotation) : Json :=
  .objOf [("name", some (.str a.name)), ("params", some (.arr (a.params.map Param.toJson))),
    ("location", a.location.map Location.toJson)]

end Annotation

/-! ## Documents with a place among other members -/

/-- Split the members of a document into its place and all the others, which are held. -/
def splitLocation (m : Json.Mode) : Option (Option Location) → List (String × Json) →
    Except Json.Fault (Option Location × List (String × Json))
  | found, [] => .ok (found.getD none, [])
  | found, (name, j) :: rest =>
    if name = "location" then
      if found.isSome then .error .mismatch
      else do
        let location ← Json.Decode.option Location.decode m j
        splitLocation m (some location) rest
    else do
      let j ← Json.Decode.hold m j
      let (location, others) ← splitLocation m found rest
      return (location, (name, j) :: others)

/-- A document with a tag, a place and the members that the tag asks for. -/
def decodeLocated {α : Type} (content : String → Json → Except Json.Fault α) :
    Json.Decoder (α × Option Location)
  | m, .obj members => do
    let (location, others) ← splitLocation m none members
    let (tag, rest) ← Json.Decode.tagged "type" (Shape.tags.map fun t => (t, t)) .held
      (.obj others)
    return (← content tag rest, location)
  | _, .unfit (.obj _) => .error .malformed
  | _, j => .error (Json.Decode.unexpected j)

/-! ## The nested form -/

namespace Expr

/-- What a nested expression with a tag and some members is, given a decoder for its children. -/
def formOf (child : Json.Decoder Expr) (tag : String) (content : Json) :
    Except Json.Fault Expr.Form := do
  let wrapped (make : Expr → Form) : Except Json.Fault Form := do
    let r ← heldRecord ["expression"] content
    let e := r.required "expression" child
    r.settle [("expression", r.outcome e)]
    return make (← e)
  let coded (make : String → Form) : Except Json.Fault Form := do
    let r ← heldRecord ["code"] content
    let code := r.required "code" Json.Decode.string
    r.settle [("code", r.outcome code)]
    return make (← code)
  if tag = "named" then
    let r ← heldRecord ["name", "expression"] content
    let name := r.required "name" Json.Decode.string
    let e := r.required "expression" child
    r.settle [("name", r.outcome name), ("expression", r.outcome e)]
    return .named (← name) (← e)
  else if tag = "choice" then
    let r ← heldRecord ["alternatives"] content
    let es := r.required "alternatives" (Json.Decode.list child)
    r.settle [("alternatives", r.outcome es)]
    return .choice (← es)
  else if tag = "action" then
    let r ← heldRecord ["expression", "code"] content
    let e := r.required "expression" child
    let code := r.required "code" Json.Decode.string
    r.settle [("expression", r.outcome e), ("code", r.outcome code)]
    return .action (← e) (← code)
  else if tag = "sequence" then
    let r ← heldRecord ["elements"] content
    let es := r.required "elements" (Json.Decode.list child)
    r.settle [("elements", r.outcome es)]
    return .sequence (← es)
  else if tag = "labeled" then
    let r ← heldRecord ["label", "expression"] content
    let label := r.defaulted "label" none (Json.Decode.option Json.Decode.string)
    let e := r.required "expression" child
    r.settle [("label", r.outcome label), ("expression", r.outcome e)]
    return .labeled (← label) (← e)
  else if tag = "text" then wrapped .text
  else if tag = "simple_and" then wrapped .simpleAnd
  else if tag = "simple_not" then wrapped .simpleNot
  else if tag = "optional" then wrapped .optional
  else if tag = "zero_or_more" then wrapped .zeroOrMore
  else if tag = "one_or_more" then wrapped .oneOrMore
  else if tag = "range" then
    let r ← heldRecord ["min", "max", "expression", "delimiter"] content
    let min := r.defaulted "min" 0 Json.Decode.word
    let max := r.defaulted "max" none (Json.Decode.option Json.Decode.word)
    let e := r.required "expression" child
    let delimiter := r.defaulted "delimiter" none (Json.Decode.option child)
    r.settle [("min", r.outcome min), ("max", r.outcome max), ("expression", r.outcome e),
      ("delimiter", r.outcome delimiter)]
    return .range (← min) (← max) (← e) (← delimiter)
  else if tag = "semantic_and" then coded .semanticAnd
  else if tag = "semantic_not" then coded .semanticNot
  else if tag = "rule_ref" then
    let r ← heldRecord ["name"] content
    let name := r.required "name" Json.Decode.string
    r.settle [("name", r.outcome name)]
    return .ruleRef (← name)
  else if tag = "literal" then
    let r ← heldRecord ["value", "ignore_case"] content
    let value := r.required "value" Json.Decode.string
    let ignoreCase := r.defaulted "ignore_case" false Json.Decode.bool
    r.settle [("value", r.outcome value), ("ignore_case", r.outcome ignoreCase)]
    return .literal (← value) (← ignoreCase)
  else if tag = "class" then
    let r ← heldRecord ["parts", "inverted", "ignore_case", "raw_text"] content
    let parts := r.required "parts" (Json.Decode.list ClassPart.decode)
    let inverted := r.defaulted "inverted" false Json.Decode.bool
    let ignoreCase := r.defaulted "ignore_case" false Json.Decode.bool
    let raw := r.defaulted "raw_text" none (Json.Decode.option Json.Decode.string)
    r.settle [("parts", r.outcome parts), ("inverted", r.outcome inverted),
      ("ignore_case", r.outcome ignoreCase), ("raw_text", r.outcome raw)]
    return .charClass (← parts) (← inverted) (← ignoreCase) (← raw)
  else if tag = "regex" then
    let r ← heldRecord ["value", "ignore_case", "multi_line", "raw_text"] content
    let value := r.required "value" Json.Decode.string
    let ignoreCase := r.defaulted "ignore_case" false Json.Decode.bool
    let multiLine := r.defaulted "multi_line" false Json.Decode.bool
    let raw := r.defaulted "raw_text" none (Json.Decode.option Json.Decode.string)
    r.settle [("value", r.outcome value), ("ignore_case", r.outcome ignoreCase),
      ("multi_line", r.outcome multiLine), ("raw_text", r.outcome raw)]
    return .regex (← value) (← ignoreCase) (← multiLine) (← raw)
  else if tag = "any" then return .any
  else if tag = "epsilon" then return .epsilon
  else coded .code

/-- Expressions nested no deeper than a bound. -/
def decodeWithin : Nat → Json.Decoder Expr
  | 0, _, _ => .error .malformed
  | n + 1, m, j =>
    (decodeLocated (formOf (decodeWithin n)) m j).map fun (form, location) => .mk form location

/-- Nested expressions; a text cannot nest them deeper than documents nest. -/
def decode : Json.Decoder Expr := decodeWithin (Json.depthLimit + 1)

mutual

/-- The members of an expression, its place last. -/
def members : Expr → List (String × Json)
  | .mk form location =>
    formMembers form ++ (location.map fun l => ("location", l.toJson)).toList

/-- The tag of a form and its members. -/
def formMembers : Form → List (String × Json)
  | .named name e => [("type", .str "named"), ("name", .str name), ("expression", .obj (members e))]
  | .choice es => [("type", .str "choice"), ("alternatives", .arr (manyToJson es))]
  | .action e code =>
    [("type", .str "action"), ("expression", .obj (members e)), ("code", .str code)]
  | .sequence es => [("type", .str "sequence"), ("elements", .arr (manyToJson es))]
  | .labeled label e =>
    [("type", .str "labeled"), ("label", .opt .str label), ("expression", .obj (members e))]
  | .text e => [("type", .str "text"), ("expression", .obj (members e))]
  | .simpleAnd e => [("type", .str "simple_and"), ("expression", .obj (members e))]
  | .simpleNot e => [("type", .str "simple_not"), ("expression", .obj (members e))]
  | .optional e => [("type", .str "optional"), ("expression", .obj (members e))]
  | .zeroOrMore e => [("type", .str "zero_or_more"), ("expression", .obj (members e))]
  | .oneOrMore e => [("type", .str "one_or_more"), ("expression", .obj (members e))]
  | .range min max e none =>
    [("type", .str "range"), ("min", .nat min.toNat), ("max", .opt (.nat ·.toNat) max),
     ("expression", .obj (members e)), ("delimiter", .null)]
  | .range min max e (some d) =>
    [("type", .str "range"), ("min", .nat min.toNat), ("max", .opt (.nat ·.toNat) max),
     ("expression", .obj (members e)), ("delimiter", .obj (members d))]
  | .semanticAnd code => [("type", .str "semantic_and"), ("code", .str code)]
  | .semanticNot code => [("type", .str "semantic_not"), ("code", .str code)]
  | .ruleRef name => [("type", .str "rule_ref"), ("name", .str name)]
  | .literal value ignoreCase =>
    [("type", .str "literal"), ("value", .str value), ("ignore_case", .bool ignoreCase)]
  | .charClass parts inverted ignoreCase raw =>
    [("type", .str "class"), ("parts", .arr (parts.map ClassPart.toJson)),
     ("inverted", .bool inverted), ("ignore_case", .bool ignoreCase), ("raw_text", .opt .str raw)]
  | .regex value ignoreCase multiLine raw =>
    [("type", .str "regex"), ("value", .str value), ("ignore_case", .bool ignoreCase),
     ("multi_line", .bool multiLine), ("raw_text", .opt .str raw)]
  | .any => [("type", .str "any")]
  | .epsilon => [("type", .str "epsilon")]
  | .code code => [("type", .str "code"), ("code", .str code)]

/-- The documents of several expressions. -/
def manyToJson : List Expr → List Json
  | [] => []
  | e :: es => .obj (members e) :: manyToJson es

end

/-- The document of an expression. -/
def toJson (e : Expr) : Json := .obj (members e)

end Expr

namespace RuleSource

/-- Written rules are records of a name, an expression, annotations and a place. -/
def decode : Json.Decoder RuleSource := fun m j => do
  let r ← Json.Decode.record ["name", "expression", "annotations", "location"] m j
  let name := r.required "name" Json.Decode.string
  let e := r.required "expression" Expr.decode
  let annotations := r.defaulted "annotations" [] (Json.Decode.list Annotation.decode)
  let location := r.defaulted "location" none (Json.Decode.option Location.decode)
  r.settle [("name", r.outcome name), ("expression", r.outcome e),
    ("annotations", r.outcome annotations), ("location", r.outcome location)]
  return ⟨← name, ← e, ← annotations, ← location⟩

/-- The document of a written rule. -/
def toJson (r : RuleSource) : Json :=
  .objOf [("name", some (.str r.name)), ("expression", some r.expression.toJson),
    ("annotations", some (.arr (r.annotations.map Annotation.toJson))),
    ("location", r.location.map Location.toJson)]

end RuleSource

namespace GrammarSource

/-- Written grammars are records of rules and perhaps an initializer. -/
def decode : Json.Decoder GrammarSource := fun m j => do
  let r ← Json.Decode.record ["rules", "initializer"] m j
  let rules := r.required "rules" (Json.Decode.list RuleSource.decode)
  let initializer := r.defaulted "initializer" none (Json.Decode.option Json.Decode.string)
  r.settle [("rules", r.outcome rules), ("initializer", r.outcome initializer)]
  return ⟨← rules, ← initializer⟩

/-- The document of a written grammar. -/
def toJson (s : GrammarSource) : Json :=
  .obj [("rules", .arr (s.rules.map RuleSource.toJson)), ("initializer", .opt .str s.initializer)]

end GrammarSource

/-! ## The flat form -/

namespace Shape

/-- What a node with a tag and some members is. -/
def ofContent (tag : String) (content : Json) : Except Json.Fault Shape := do
  let id : Json.Decoder NodeId := fun m j => (Json.Decode.word m j).map (·.toNat)
  let wrapped (make : NodeId → Shape) : Except Json.Fault Shape := do
    let r ← heldRecord ["expression"] content
    let e := r.required "expression" id
    r.settle [("expression", r.outcome e)]
    return make (← e)
  let coded (make : String → Shape) : Except Json.Fault Shape := do
    let r ← heldRecord ["code"] content
    let code := r.required "code" Json.Decode.string
    r.settle [("code", r.outcome code)]
    return make (← code)
  if tag = "named" then
    let r ← heldRecord ["name", "expression"] content
    let name := r.required "name" Json.Decode.string
    let e := r.required "expression" id
    r.settle [("name", r.outcome name), ("expression", r.outcome e)]
    return .named (← name) (← e)
  else if tag = "choice" then
    let r ← heldRecord ["alternatives"] content
    let es := r.required "alternatives" (Json.Decode.list id)
    r.settle [("alternatives", r.outcome es)]
    return .choice (← es)
  else if tag = "action" then
    let r ← heldRecord ["expression", "code"] content
    let e := r.required "expression" id
    let code := r.required "code" Json.Decode.string
    r.settle [("expression", r.outcome e), ("code", r.outcome code)]
    return .action (← e) (← code)
  else if tag = "sequence" then
    let r ← heldRecord ["elements"] content
    let es := r.required "elements" (Json.Decode.list id)
    r.settle [("elements", r.outcome es)]
    return .sequence (← es)
  else if tag = "labeled" then
    let r ← heldRecord ["label", "expression"] content
    let label := r.optional "label" Json.Decode.string
    let e := r.required "expression" id
    r.settle [("label", r.outcome label), ("expression", r.outcome e)]
    return .labeled (← label) (← e)
  else if tag = "text" then wrapped .text
  else if tag = "simple_and" then wrapped .simpleAnd
  else if tag = "simple_not" then wrapped .simpleNot
  else if tag = "optional" then wrapped .optional
  else if tag = "zero_or_more" then wrapped .zeroOrMore
  else if tag = "one_or_more" then wrapped .oneOrMore
  else if tag = "range" then
    let r ← heldRecord ["min", "max", "expression", "delimiter"] content
    let min := r.required "min" Json.Decode.word
    let max := r.optional "max" Json.Decode.word
    let e := r.required "expression" id
    let delimiter := r.optional "delimiter" id
    r.settle [("min", r.outcome min), ("max", r.outcome max), ("expression", r.outcome e),
      ("delimiter", r.outcome delimiter)]
    return .range (← min) (← max) (← e) (← delimiter)
  else if tag = "semantic_and" then coded .semanticAnd
  else if tag = "semantic_not" then coded .semanticNot
  else if tag = "rule_ref" then
    let r ← heldRecord ["name"] content
    let name := r.required "name" Json.Decode.string
    r.settle [("name", r.outcome name)]
    return .ruleRef (← name)
  else if tag = "literal" then
    let r ← heldRecord ["value", "ignore_case"] content
    let value := r.required "value" Json.Decode.string
    let ignoreCase := r.required "ignore_case" Json.Decode.bool
    r.settle [("value", r.outcome value), ("ignore_case", r.outcome ignoreCase)]
    return .literal (← value) (← ignoreCase)
  else if tag = "class" then
    let r ← heldRecord ["parts", "inverted", "ignore_case", "raw_text"] content
    let parts := r.required "parts" (Json.Decode.list ClassPart.decode)
    let inverted := r.required "inverted" Json.Decode.bool
    let ignoreCase := r.required "ignore_case" Json.Decode.bool
    let raw := r.required "raw_text" Json.Decode.string
    r.settle [("parts", r.outcome parts), ("inverted", r.outcome inverted),
      ("ignore_case", r.outcome ignoreCase), ("raw_text", r.outcome raw)]
    return .charClass (← parts) (← inverted) (← ignoreCase) (← raw)
  else if tag = "regex" then
    let r ← heldRecord ["value", "ignore_case", "multi_line", "raw_text"] content
    let value := r.required "value" Json.Decode.string
    let ignoreCase := r.required "ignore_case" Json.Decode.bool
    let multiLine := r.required "multi_line" Json.Decode.bool
    let raw := r.required "raw_text" Json.Decode.string
    r.settle [("value", r.outcome value), ("ignore_case", r.outcome ignoreCase),
      ("multi_line", r.outcome multiLine), ("raw_text", r.outcome raw)]
    return .regex (← value) (← ignoreCase) (← multiLine) (← raw)
  else if tag = "any" then return .any
  else if tag = "epsilon" then return .epsilon
  else coded .code

/-- The members of a shape, after its tag. -/
def fields : Shape → List (String × Json)
  | .named name e => [("name", .str name), ("expression", .nat e)]
  | .choice es => [("alternatives", .arr (es.map .nat))]
  | .action e source => [("expression", .nat e), ("code", .str source)]
  | .sequence es => [("elements", .arr (es.map .nat))]
  | .labeled label e => [("label", .opt .str label), ("expression", .nat e)]
  | .text e => [("expression", .nat e)]
  | .simpleAnd e => [("expression", .nat e)]
  | .simpleNot e => [("expression", .nat e)]
  | .optional e => [("expression", .nat e)]
  | .zeroOrMore e => [("expression", .nat e)]
  | .oneOrMore e => [("expression", .nat e)]
  | .range min max e delimiter =>
    [("min", .nat min.toNat), ("max", .opt (.nat ·.toNat) max), ("expression", .nat e),
     ("delimiter", .opt .nat delimiter)]
  | .semanticAnd source => [("code", .str source)]
  | .semanticNot source => [("code", .str source)]
  | .ruleRef name => [("name", .str name)]
  | .literal value ignoreCase => [("value", .str value), ("ignore_case", .bool ignoreCase)]
  | .charClass parts inverted ignoreCase raw =>
    [("parts", .arr (parts.map ClassPart.toJson)), ("inverted", .bool inverted),
     ("ignore_case", .bool ignoreCase), ("raw_text", .str raw)]
  | .regex value ignoreCase multiLine raw =>
    [("value", .str value), ("ignore_case", .bool ignoreCase), ("multi_line", .bool multiLine),
     ("raw_text", .str raw)]
  | .any => []
  | .epsilon => []
  | .code source => [("code", .str source)]

end Shape

namespace Node

/-- Nodes are tagged documents with a place. -/
def decode : Json.Decoder Node := fun m j =>
  (decodeLocated Shape.ofContent m j).map fun (shape, location) => ⟨shape, location⟩

/-- The document of a node. -/
def toJson (n : Node) : Json :=
  .obj (("type", .str n.shape.tag) :: n.shape.fields
    ++ (n.location.map fun l => ("location", l.toJson)).toList)

end Node

namespace Rule

/-- Rules are records of a name, the number of their root, annotations and a place. -/
def decode : Json.Decoder Rule := fun m j => do
  let r ← Json.Decode.record ["name", "expression", "annotations", "location"] m j
  let name := r.required "name" Json.Decode.string
  let root := r.required "expression" fun m j => (Json.Decode.word m j).map (·.toNat)
  let annotations := r.defaulted "annotations" [] (Json.Decode.list Annotation.decode)
  let location := r.defaulted "location" none (Json.Decode.option Location.decode)
  r.settle [("name", r.outcome name), ("expression", r.outcome root),
    ("annotations", r.outcome annotations), ("location", r.outcome location)]
  return ⟨← name, ← root, ← annotations, ← location⟩

/-- The document of a rule. -/
def toJson (r : Rule) : Json :=
  .objOf [("name", some (.str r.name)), ("expression", some (.nat r.expression)),
    ("annotations", some (.arr (r.annotations.map Annotation.toJson))),
    ("location", r.location.map Location.toJson)]

end Rule

namespace Grammar

/-- Grammars are records of rules, nodes and perhaps an initializer. -/
def decode : Json.Decoder Grammar := fun m j => do
  let r ← Json.Decode.record ["rules", "nodes", "initializer"] m j
  let rules := r.required "rules" (Json.Decode.list Rule.decode)
  let nodes := r.required "nodes" (Json.Decode.list Node.decode)
  let initializer := r.defaulted "initializer" none (Json.Decode.option Json.Decode.string)
  r.settle [("rules", r.outcome rules), ("nodes", r.outcome nodes),
    ("initializer", r.outcome initializer)]
  return ⟨← rules, (← nodes).toArray, ← initializer⟩

/-- The document of a grammar. -/
def toJson (g : Grammar) : Json :=
  .objOf [("rules", some (.arr (g.rules.map Rule.toJson))),
    ("nodes", some (.arr (g.nodes.toList.map Node.toJson))),
    ("initializer", g.initializer.map .str)]

/-- The grammar that a text in nested form describes. -/
def ofText (text : String) : Except Json.Fault Grammar :=
  (Json.Decode.text GrammarSource.decode text).map ofSource

/-- The grammar that a text in flat form describes. -/
def ofFlatText (text : String) : Except Json.Fault Grammar := Json.Decode.text decode text

/-- The text of a grammar in flat form. -/
def toText (g : Grammar) : String := g.toJson.pretty

end Grammar

end PegMachine
