import PegMachine.Program
import PegMachine.Text.Quoted

/-!
# Names and literals

How names, constants and actions are written in Rust. Labels are any texts, so they are made into
identifiers first.
-/

namespace PegMachine.Emit

/-! ## Names -/

/-- Whether a character may stand in an identifier. The tables are looked up for characters beyond
ASCII only. -/
def isNameChar (c : Char) : Bool :=
  if c.toNat < 128 then c.isAlphanum || c == '_'
  else Unicode.isAlphabetic c || Unicode.Category.numbers.any (·.table.contains c)

/-- The words that are no identifiers but for a mark in front of them. -/
def keywords : List String :=
  ["as", "async", "await", "break", "const", "continue", "dyn", "else", "enum", "extern", "false",
   "fn", "for", "if", "impl", "in", "let", "loop", "match", "mod", "move", "mut", "pub", "ref",
   "return", "static", "struct", "trait", "true", "type", "unsafe", "use", "where", "while",
   "abstract", "become", "box", "do", "final", "macro", "override", "priv", "try", "typeof",
   "unsized", "virtual", "yield"]

/-- The words that are no identifiers even with a mark in front of them. -/
def pathWords : List String := ["self", "Self", "super", "crate"]

/-- A text of which only characters of identifiers are left, and which starts with no digit. -/
def plainName (label : String) : String :=
  let name := label.toList.map fun c => if isNameChar c then c else '_'
  match name with
  | [] => "_"
  | c :: _ => String.ofList (if c.isDigit then '_' :: name else name)

/-- A label as an identifier. -/
def identifier (label : String) : String :=
  let name := plainName label
  if pathWords.contains name then name ++ "_"
  else if keywords.contains name then "r#" ++ name
  else name

/-! ## Literals -/

/-- Texts with commas between them. -/
def commas (items : List String) : String := ", ".intercalate items

/-- A list. -/
def vector (items : List String) : String := "vec![" ++ commas items ++ "]"

/-- An owned text. -/
def ownedText (text : String) : String := Text.quote text ++ ".to_string()"

/-- An owned text that may be missing. -/
def optionalText : Option String → String
  | some text => "Some(" ++ ownedText text ++ ")"
  | none => "None"

/-- A structure with its fields. -/
def record (name : String) (fields : List (String × String)) : String :=
  name ++ " \x7b " ++ commas (fields.map fun (field, value) => field ++ ": " ++ value) ++ " \x7d"

/-- The name of the variant for a kind of expectation. -/
def kindVariant : Expectation.Kind → String
  | .literal => "Literal"
  | .charClass => "Class"
  | .any => "Any"
  | .regex => "Regex"
  | .code => "Code"
  | .other => "Other"
  | .endOfInput => "End"

/-- An expectation. -/
def ofExpectation (e : Expectation) : String :=
  record "Expectation"
    [("kind", "ExpectationKind::" ++ kindVariant e.kind), ("value", optionalText e.value),
     ("description", ownedText e.description)]

/-- A constant. -/
def ofConstant : Program.Constant → String
  | .string value => record "Const::String" [("value", ownedText value)]
  | .pattern source ignoreCase multiLine =>
    record "Const::Regexp"
      [("pattern", ownedText source), ("ignore_case", toString ignoreCase),
       ("multi_line", toString multiLine)]
  | .expected e => record "Const::Expected" [("expected", ofExpectation e)]

/-- An action. -/
def ofAction (a : Program.Action) : String :=
  record "ActionDef"
    [("params", vector (a.params.map ownedText)), ("code", ownedText a.code)]

/-- A compiled rule, with its code or without. -/
def ofRule (withCode : Bool) (r : Program.Rule) : String :=
  let words := if withCode then r.code.toList.map fun w => toString w.toNat else []
  record "RuleCode"
    [("name", ownedText r.name), ("memoize", toString r.memoize), ("bytecode", vector words)]

end PegMachine.Emit
