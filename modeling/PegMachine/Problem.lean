import PegMachine.Location

/-!
# Problems

What a compilation finds wrong with a grammar. A problem has a severity: fatal ones end the stage
at once, errors end the compilation after the stage, warnings and infos end nothing.
-/

namespace PegMachine

/-- How grave a problem is. -/
inductive Severity where
  /-- Ends the stage at once. -/
  | fatal
  /-- Ends the compilation after the stage. -/
  | error
  /-- Ends nothing. -/
  | warning
  /-- Ends nothing. -/
  | info
  deriving DecidableEq, Repr, Inhabited

namespace Severity

/-- The word for a severity. -/
def name : Severity → String
  | .fatal => "fatal"
  | .error => "error"
  | .warning => "warning"
  | .info => "info"

/-- The severity that a word names. -/
def ofName? (word : String) : Option Severity :=
  [fatal, error, warning, info].find? (·.name = word)

/-- Whether a problem of the severity makes the stage fail. -/
def isFailure : Severity → Bool
  | .fatal => true
  | .error => true
  | .warning => false
  | .info => false

end Severity

/-- A further place that a problem is about. -/
structure Note where
  /-- What is there. -/
  message : String
  /-- The place. -/
  location : Option Location
  deriving DecidableEq, Repr, Inhabited

/-- A problem. -/
structure Problem where
  /-- How grave it is. -/
  severity : Severity
  /-- What it is. -/
  message : String
  /-- Where it is. -/
  location : Option Location := none
  /-- Further places. -/
  notes : List Note := []
  deriving DecidableEq, Repr, Inhabited

namespace Problem

/-- A problem as it is shown to a person. -/
def describe (p : Problem) : String :=
  p.severity.name ++ ": " ++ p.location.elim "" (fun l => l.describe ++ ": ") ++ p.message

/-- The document of a problem. -/
def toJson (p : Problem) : Json :=
  let place (l : Option Location) : Json := .opt Location.toJson l
  .obj [("severity", .str p.severity.name), ("message", .str p.message),
    ("location", place p.location),
    ("notes", .arr (p.notes.map fun n =>
      .obj [("message", .str n.message), ("location", place n.location)]))]

end Problem

/-- A defect of a grammar that ended its compilation. -/
structure GrammarError where
  /-- The headline. -/
  message : String
  /-- The place of a fatal problem. -/
  location : Option Location
  /-- The problems of the stage that failed. -/
  problems : List Problem
  deriving DecidableEq, Repr, Inhabited

/-- A defect as it is shown to a person: the headline and a line for every problem. -/
def GrammarError.describe (e : GrammarError) : String :=
  let heading := match e.location with
    | some l => s!"Line {l.start.line}, column {l.start.column}: " ++ e.message
    | none => e.message
  heading ++ String.join (e.problems.map fun p => "\n" ++ p.describe)

/-- Why a compilation gave nothing. -/
inductive CompileError where
  /-- The grammar is defective. -/
  | grammar (e : GrammarError)
  /-- The compiler made inconsistent code. -/
  | internal (message : String)
  deriving DecidableEq, Repr, Inhabited

namespace CompileError

/-- The message of a compile error. -/
def message : CompileError → String
  | .grammar e => e.describe
  | .internal message => "internal compiler error: " ++ message

/-- The problems of the stage that failed. -/
def problems : CompileError → List Problem
  | .grammar e => e.problems
  | .internal _ => []

end CompileError

end PegMachine
