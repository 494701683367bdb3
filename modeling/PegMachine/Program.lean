import PegMachine.Expectation
import PegMachine.Failure
import PegMachine.Json.Printer
import PegMachine.Machine.Instruction
import PegMachine.Regex

/-!
# Programs

A compiled grammar: machine code for every rule, a pool of constants, a pool of actions, the rules
that a parse may start from, and the switches for memoization, tracing and statistics.
-/

namespace PegMachine

namespace Program

/-- An entry of the pool of constants. -/
inductive Constant where
  /-- A text; in lower case where letter case is to be ignored. -/
  | string (value : String)
  /-- A pattern that is matched at the current offset. -/
  | pattern (source : String) (ignoreCase multiLine : Bool)
  /-- An expectation to report. -/
  | expected (expectation : Expectation)
  deriving DecidableEq, Repr, Inhabited

/-- An entry of the pool of actions. -/
structure Action where
  /-- The labels whose values the action is given, in order. -/
  params : List String
  /-- The code. -/
  code : String
  deriving DecidableEq, Repr, Inhabited

/-- A compiled rule. -/
structure Rule where
  /-- The name. -/
  name : String
  /-- Whether results are to be memoized. -/
  memoize : Bool
  /-- The machine code. -/
  code : Array UInt32
  deriving DecidableEq, Repr, Inhabited

end Program

/-- A compiled grammar. -/
structure Program where
  /-- The rules, by index. -/
  rules : Array Program.Rule
  /-- The pool of constants. -/
  constants : Array Program.Constant
  /-- The pool of actions. -/
  actions : Array Program.Action
  /-- The indices of the rules that a parse may start from, the preferred one first. -/
  starters : List Nat
  /-- The rule that a parse starts from unless told otherwise. -/
  defaultStart : Nat
  /-- Whether memoization is on at all. -/
  memoize : Bool
  /-- Whether trace events are emitted. -/
  trace : Bool
  /-- Whether statistics are collected. -/
  statistics : Bool
  deriving DecidableEq, Repr, Inhabited

namespace Program

/-- The anchored source of a pattern constant. -/
def Constant.anchored? : Constant → Option String
  | .pattern source ignoreCase multiLine => some (Regex.anchored source ignoreCase multiLine)
  | _ => none

/-- The compiled pattern of a constant, if it is one and it compiles. -/
def Constant.regex? (c : Constant) : Option Regex := c.anchored?.bind Regex.compile?

/-- The compiled patterns, by index of their constants. -/
def patterns (p : Program) : Array (Option Regex) := p.constants.map Constant.regex?

/-- The name of a rule; empty if there is no such rule. -/
def ruleName (p : Program) (index : Nat) : String := (p.rules[index]?).elim "" (·.name)

/-- The index of the first rule with a name. -/
def ruleIndex? (p : Program) (name : String) : Option Nat := p.rules.findIdx? (·.name = name)

/-- Whether the results of a rule are memoized. -/
def isMemoized (p : Program) (index : Nat) : Bool :=
  p.memoize && (p.rules[index]?).any (·.memoize)

/-- The names of the rules that a parse may start from. -/
def starterNames (p : Program) : List String := p.starters.map p.ruleName

/-- The rule that a parse starts from, given the name that is asked for. -/
def startIndex (p : Program) : Option String → Except ParseFailure Nat
  | none => .ok p.defaultStart
  | some name =>
    match p.starters.find? (p.ruleName · = name) with
    | some index => .ok index
    | none => .error (.unknownStart name)

/-- The text of a string constant; empty for any other index. -/
def string (p : Program) (index : Nat) : String :=
  match p.constants[index]? with
  | some (.string value) => value
  | _ => ""

/-- The expectation of an expectation constant. -/
def expectation? (p : Program) (index : Nat) : Option Expectation :=
  match p.constants[index]? with
  | some (.expected e) => some e
  | _ => none

/-! ## Listing -/

/-- The listing of one rule: a heading and a line for every instruction. -/
def ruleListing (index : Nat) (r : Rule) : Except ListingError String := do
  let instructions ← Instruction.listing r.code
  let heading := s!"rule {index} (" ++ r.name ++ "):\n"
  return heading ++ String.join (instructions.map fun i => i.describe ++ "\n")

/-- The listing of some rules, the first of which has an index. -/
def listingFrom (index : Nat) : List Rule → Except ListingError String
  | [] => .ok ""
  | r :: rest => do
    let first ← ruleListing index r
    let others ← listingFrom (index + 1) rest
    return first ++ others

/-- The listing of all rules. -/
def listing (p : Program) : Except ListingError String := listingFrom 0 p.rules.toList

/-! ## Documents -/

namespace Constant

/-- The document of a constant. -/
def toJson : Constant → Json
  | .string value => .obj [("type", .str "string"), ("value", .str value)]
  | .pattern source ignoreCase multiLine =>
    .obj [("type", .str "regexp"), ("pattern", .str source), ("ignore_case", .bool ignoreCase),
      ("multi_line", .bool multiLine)]
  | .expected e => .obj [("type", .str "expected"), ("expected", e.toJson)]

/-- The kinds of constants. -/
inductive Kind where
  /-- A text. -/
  | string
  /-- A pattern. -/
  | pattern
  /-- An expectation. -/
  | expected

/-- The words for the kinds. -/
def kinds : List (String × Kind) :=
  [("string", .string), ("regexp", .pattern), ("expected", .expected)]

/-- A constant of a kind, read from the members after its tag. -/
def ofContent (kind : Kind) (content : Json) : Except Json.Fault Constant := do
  match kind with
  | .string =>
    let r ← Json.Decode.record ["value"] .held content
    let value := r.required "value" Json.Decode.string
    r.settle [("value", r.outcome value)]
    return .string (← value)
  | .pattern =>
    let r ← Json.Decode.record ["pattern", "ignore_case", "multi_line"] .held content
    let source := r.required "pattern" Json.Decode.string
    let ignoreCase := r.defaulted "ignore_case" false Json.Decode.bool
    let multiLine := r.defaulted "multi_line" false Json.Decode.bool
    r.settle [("pattern", r.outcome source), ("ignore_case", r.outcome ignoreCase),
      ("multi_line", r.outcome multiLine)]
    return .pattern (← source) (← ignoreCase) (← multiLine)
  | .expected =>
    let r ← Json.Decode.record ["expected"] .held content
    let e := r.required "expected" Expectation.decode
    r.settle [("expected", r.outcome e)]
    return .expected (← e)

/-- Constants are tagged documents. -/
def decode : Json.Decoder Constant := fun m j => do
  let (kind, content) ← Json.Decode.tagged "type" kinds m j
  ofContent kind content

end Constant

namespace Action

/-- The document of an action. -/
def toJson (a : Action) : Json :=
  .obj [("params", .arr (a.params.map .str)), ("code", .str a.code)]

/-- Actions are records of parameters and code. -/
def decode : Json.Decoder Action := fun m j => do
  let r ← Json.Decode.record ["params", "code"] m j
  let params := r.required "params" (Json.Decode.list Json.Decode.string)
  let code := r.required "code" Json.Decode.string
  r.settle [("params", r.outcome params), ("code", r.outcome code)]
  return ⟨← params, ← code⟩

end Action

namespace Rule

/-- The document of a compiled rule. -/
def toJson (r : Rule) : Json :=
  .obj [("name", .str r.name), ("memoize", .bool r.memoize),
    ("bytecode", .arr (r.code.toList.map fun w => .nat w.toNat))]

/-- Compiled rules are records of a name, a flag and code. -/
def decode : Json.Decoder Rule := fun m j => do
  let r ← Json.Decode.record ["name", "memoize", "bytecode"] m j
  let name := r.required "name" Json.Decode.string
  let memoize := r.required "memoize" Json.Decode.bool
  let code := r.required "bytecode" (Json.Decode.list Json.Decode.word)
  r.settle [("name", r.outcome name), ("memoize", r.outcome memoize),
    ("bytecode", r.outcome code)]
  return ⟨← name, ← memoize, (← code).toArray⟩

end Rule

/-- The document of a program. -/
def toJson (p : Program) : Json :=
  .obj [("rules", .arr (p.rules.toList.map Rule.toJson)),
    ("consts", .arr (p.constants.toList.map Constant.toJson)),
    ("actions", .arr (p.actions.toList.map Action.toJson)),
    ("starters", .arr (p.starters.map .nat)), ("default_start", .nat p.defaultStart),
    ("memoize", .bool p.memoize), ("trace", .bool p.trace), ("statistics", .bool p.statistics)]

/-- The names of the members of the document of a program, in order. -/
def memberNames : List String :=
  ["rules", "consts", "actions", "starters", "default_start", "memoize", "trace", "statistics"]

/-- Programs are records of their parts. -/
def decode : Json.Decoder Program := fun m j => do
  let r ← Json.Decode.record memberNames m j
  let rules := r.required "rules" (Json.Decode.list Rule.decode)
  let constants := r.required "consts" (Json.Decode.list Constant.decode)
  let actions := r.required "actions" (Json.Decode.list Action.decode)
  let starters := r.required "starters" (Json.Decode.list Json.Decode.count)
  let defaultStart := r.required "default_start" Json.Decode.count
  let memoize := r.required "memoize" Json.Decode.bool
  let trace := r.required "trace" Json.Decode.bool
  let statistics := r.required "statistics" Json.Decode.bool
  r.settle [("rules", r.outcome rules), ("consts", r.outcome constants),
    ("actions", r.outcome actions), ("starters", r.outcome starters),
    ("default_start", r.outcome defaultStart), ("memoize", r.outcome memoize),
    ("trace", r.outcome trace), ("statistics", r.outcome statistics)]
  return ⟨(← rules).toArray, (← constants).toArray, (← actions).toArray, ← starters,
    ← defaultStart, ← memoize, ← trace, ← statistics⟩

/-- The text of a program. -/
def toText (p : Program) : String := p.toJson.compact

/-- The program that a text describes. -/
def ofText (text : String) : Except Json.Fault Program := Json.Decode.text decode text

end Program

end PegMachine
