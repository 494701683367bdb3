import PegMachine.Expectation
import PegMachine.Location

/-!
# Failed parses

A parse fails because the input does not match, because it was asked to start at a rule that is no
starter, or because it met an action that nobody provides. A mismatch is reported with what was
expected, what was found instead, and where.
-/

namespace PegMachine

/-- The report of an input that does not match. -/
structure SyntaxError where
  /-- The message. -/
  message : String
  /-- What was expected, sorted and without repetition; empty for messages of actions. -/
  expected : List Expectation
  /-- The text found instead, if there was any. -/
  found : Option String
  /-- Where it was found. -/
  location : Location
  deriving DecidableEq, Repr, Inhabited

namespace SyntaxError

/-- Descriptions joined the way a sentence lists alternatives. -/
def alternatives : List String → Option String
  | [] => none
  | [last] => some last
  | first :: rest =>
    some (", ".intercalate (first :: rest.dropLast) ++ " or " ++ rest.getLastD "")

/-- The text found, as messages call it; nothing at all is the end of the input. -/
def describeFound : Option String → String
  | some text => if text.isEmpty then "end of input" else Text.inQuotes text
  | none => "end of input"

/-- The message for what was expected and what was found. -/
def messageFor (expected : List Expectation) (found : Option String) : String :=
  match alternatives (expected.map (·.description)) with
  | none => "Unexpected " ++ describeFound found ++ "."
  | some wanted => "Expected " ++ wanted ++ " but " ++ describeFound found ++ " found."

/-- The report with the standard message. -/
def ofExpected (expected : List Expectation) (found : Option String) (location : Location) :
    SyntaxError :=
  let expected := Expectation.tidy expected
  ⟨messageFor expected found, expected, found, location⟩

/-- A report with a message of its own. -/
def custom (message : String) (found : Option String) (location : Location) : SyntaxError :=
  ⟨message, [], found, location⟩

/-- What was expected, as messages call it. -/
def descriptions (e : SyntaxError) : List String := e.expected.map (·.description)

end SyntaxError

/-- Why a parse gave no value. -/
inductive ParseFailure where
  /-- The input does not match. -/
  | mismatch (error : SyntaxError)
  /-- The requested start rule is no starter. -/
  | unknownStart (rule : String)
  /-- Nobody provides the action with this index and code. -/
  | unboundAction (index : Nat) (code : String)
  deriving DecidableEq, Repr, Inhabited

/-- The message of a failed parse. -/
def ParseFailure.message : ParseFailure → String
  | .mismatch e => e.message
  | .unknownStart rule => "Can't start parsing from rule \"" ++ rule ++ "\"."
  | .unboundAction index code => s!"no handler bound for action {index} ({code})"

end PegMachine
