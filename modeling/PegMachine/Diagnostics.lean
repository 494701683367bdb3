import PegMachine.Problem

/-!
# Diagnostics

What is said about a compilation while it runs: the problems found so far, and a log. Problems are
counted stage by stage; a stage that reported errors fails at its end, so that all that is wrong in
one stage is reported together. Listeners hear every problem the moment it is recorded.
-/

namespace PegMachine

/-- How important an entry of the log is. -/
inductive LogLevel where
  /-- For whoever runs the compiler. -/
  | info
  /-- For whoever writes it. -/
  | debug
  deriving DecidableEq, Repr, Inhabited

/-- The word for a level. -/
def LogLevel.name : LogLevel → String
  | .info => "info"
  | .debug => "debug"

/-- An entry of the log. -/
structure LogEntry where
  /-- How important it is. -/
  level : LogLevel
  /-- The text. -/
  text : String
  deriving DecidableEq, Repr, Inhabited

/-- The line of an entry of the log. -/
def LogEntry.describe (e : LogEntry) : String := e.level.name ++ " " ++ e.text

/-- The problems of a compilation and its log. -/
structure Diagnostics where
  /-- The problems in order. -/
  problems : List Problem := []
  /-- The number of problems from earlier stages. -/
  stageStart : Nat := 0
  /-- The number of failures of the current stage. -/
  errors : Nat := 0
  /-- Whether every problem is logged. -/
  verbose : Bool := false
  /-- What each listener has heard so far, in order. -/
  listeners : List (List Problem) := []
  /-- The log in order. -/
  log : Array LogEntry := #[]
  deriving DecidableEq, Repr, Inhabited

namespace Diagnostics

/-- Add an entry to the log. -/
def logs (d : Diagnostics) (level : LogLevel) (text : String) : Diagnostics :=
  { d with log := d.log.push ⟨level, text⟩ }

/-- Record a problem and tell the listeners. -/
def record (d : Diagnostics) (p : Problem) : Diagnostics :=
  let d := if d.verbose then d.logs .info p.describe else d
  { d with problems := d.problems ++ [p], listeners := d.listeners.map (· ++ [p]) }

/-- The problems of the current stage. -/
def stageProblems (d : Diagnostics) : List Problem := d.problems.drop d.stageStart

/-- Record a problem that ends the stage at once; the error is to be passed on. -/
def fatal (d : Diagnostics) (message : String) (location : Option Location) :
    GrammarError × Diagnostics :=
  let d := d.record { severity := .fatal, message, location }
  (⟨message, location, d.stageProblems⟩, d)

/-- Report a problem. -/
def report (d : Diagnostics) (p : Problem) : Diagnostics :=
  let d := if p.severity.isFailure then { d with errors := d.errors + 1 } else d
  d.record p

/-- Report an error. -/
def error (d : Diagnostics) (message : String) (location : Option Location) : Diagnostics :=
  d.report { severity := .error, message, location }

/-- Report a warning. -/
def warning (d : Diagnostics) (message : String) (location : Option Location) : Diagnostics :=
  d.report { severity := .warning, message, location }

/-- Report something worth knowing. -/
def info (d : Diagnostics) (message : String) (location : Option Location) : Diagnostics :=
  d.report { severity := .info, message, location }

/-- Start a stage. -/
def beginStage (d : Diagnostics) : Diagnostics :=
  { d with stageStart := d.problems.length, errors := 0 }

/-- The verdict at the end of a stage: it fails if errors were reported. -/
def endStage (d : Diagnostics) (stage : String) : Except GrammarError Unit :=
  if d.errors = 0 then .ok ()
  else .error ⟨"Stage " ++ stage ++ " contains errors.", none, d.stageProblems⟩

/-- A stage starts without problems. -/
theorem stageProblems_beginStage (d : Diagnostics) : d.beginStage.stageProblems = [] := by
  simp [stageProblems, beginStage]

/-- A stage that starts without errors and reports none goes well. -/
theorem endStage_eq_ok_iff {d : Diagnostics} {stage : String} :
    d.endStage stage = .ok () ↔ d.errors = 0 := by
  unfold endStage
  split <;> simp_all

/-- A report comes last. -/
theorem problems_report (d : Diagnostics) (p : Problem) :
    (d.report p).problems = d.problems ++ [p] := by
  cases h : d.verbose <;> cases hp : p.severity.isFailure <;> simp [report, record, logs, h, hp]

/-- Diagnostics as they are shown to a person. -/
def describe (d : Diagnostics) : String :=
  s!"Diagnostics \x7b problems: {d.problems.length}, errors: {d.errors}, user: "
    ++ toString (!d.listeners.isEmpty) ++ " \x7d"

end Diagnostics

end PegMachine
