import PegMachine.Json.Decode
import PegMachine.Text.Escape

/-!
# Expectations

What a parser expected at the place where it could not go on. Lists of expectations are shown in
one order, by description first, and without repetition.
-/

namespace PegMachine

/-- The kind of thing that was expected. -/
inductive Expectation.Kind where
  /-- A literal text. -/
  | literal
  /-- A character class. -/
  | charClass
  /-- Any character. -/
  | any
  /-- A regular expression. -/
  | regex
  /-- Code that has to succeed. -/
  | code
  /-- Something known by its name only. -/
  | other
  /-- The end of the input. -/
  | endOfInput
  deriving DecidableEq, Repr, Inhabited

namespace Expectation.Kind

/-- The word for a kind. -/
def name : Kind → String
  | .literal => "literal"
  | .charClass => "class"
  | .any => "any"
  | .regex => "regex"
  | .code => "code"
  | .other => "other"
  | .endOfInput => "end"

/-- Every kind, in the order in which kinds are sorted. -/
def all : List Kind := [.literal, .charClass, .any, .regex, .code, .other, .endOfInput]

/-- The place of a kind in that order. -/
def rank : Kind → Nat
  | .literal => 0
  | .charClass => 1
  | .any => 2
  | .regex => 3
  | .code => 4
  | .other => 5
  | .endOfInput => 6

/-- The kind that a word names. -/
def ofName? (word : String) : Option Kind := all.find? (·.name = word)

end Expectation.Kind

/-- One thing that was expected. -/
structure Expectation where
  /-- The kind of thing. -/
  kind : Expectation.Kind
  /-- Its raw text, where it has one. -/
  value : Option String
  /-- How messages call it. -/
  description : String
  deriving DecidableEq, Repr, Inhabited

namespace Expectation

/-- A literal text. -/
def literal (value : String) : Expectation := ⟨.literal, some value, Text.inQuotes value⟩

/-- A character class, by its source. -/
def ofClass (raw : String) : Expectation := ⟨.charClass, some raw, raw⟩

/-- A regular expression, by its source. -/
def regex (raw : String) : Expectation := ⟨.regex, some raw, raw⟩

/-- Code that has to succeed. -/
def code (source : String) : Expectation := ⟨.code, some source, source⟩

/-- Any character. -/
def any : Expectation := ⟨.any, none, "any character"⟩

/-- Something known by its name only. -/
def other (description : String) : Expectation := ⟨.other, none, description⟩

/-- The end of the input. -/
def endOfInput : Expectation := ⟨.endOfInput, none, "end of input"⟩

/-! ## Order -/

/-- Whether one optional text comes before another or agrees with it; no text comes first. -/
def optionLe : Option String → Option String → Bool
  | none, _ => true
  | some _, none => false
  | some a, some b => a ≤ b

/-- The order of expectations: by description, then by kind, then by raw text. -/
def le (a b : Expectation) : Bool :=
  if a.description = b.description then
    if a.kind = b.kind then optionLe a.value b.value else a.kind.rank ≤ b.kind.rank
  else a.description ≤ b.description

/-- Drop every entry that equals the one before it. -/
def dropRepeats : List Expectation → List Expectation
  | [] => []
  | [e] => [e]
  | a :: b :: rest =>
    if a = b then dropRepeats (b :: rest) else a :: dropRepeats (b :: rest)

/-- Sorted expectations without repetition. -/
def tidy (es : List Expectation) : List Expectation := dropRepeats (es.mergeSort le)

/-! ## Documents -/

/-- The document of an expectation. -/
def toJson (e : Expectation) : Json :=
  .objOf [("type", some (.str e.kind.name)), ("value", e.value.map .str),
    ("description", some (.str e.description))]

/-- Expectations are records of a kind, a description and perhaps a raw text. -/
def decode : Json.Decoder Expectation := fun m j => do
  let r ← Json.Decode.record ["type", "value", "description"] m j
  let kind := r.required "type" (Json.Decode.tag Kind.ofName?)
  let value := r.defaulted "value" none (Json.Decode.option Json.Decode.string)
  let description := r.required "description" Json.Decode.string
  r.settle [("type", r.outcome kind), ("value", r.outcome value),
    ("description", r.outcome description)]
  return ⟨← kind, ← value, ← description⟩

end Expectation

end PegMachine
