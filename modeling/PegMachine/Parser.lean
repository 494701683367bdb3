import PegMachine.Run.Interpreter
import PegMachine.Run.Routines

/-!
# Parsers

A parser is a program with an executor and the statistics of the parses so far. Executors answer
the same for the same program; they differ in speed and size.
-/

namespace PegMachine

/-- How a program is run. -/
inductive Executor where
  /-- Its machine code is interpreted. -/
  | interpreter
  /-- Its rules are run as routines. -/
  | routines (rs : Array Routine)

/-- A compiled grammar ready to parse. -/
structure Parser extends Executable where
  /-- How the program is run. -/
  executor : Executor
  /-- What was counted so far. -/
  statistics : Statistics

/-- What a parse may be told. -/
structure ParseOptions where
  /-- The rule to start from, if it is not the usual one. -/
  startRule : Option String := none
  /-- Whether somebody listens to trace events. -/
  tracer : Bool := false

/-- Options as they are shown to a person. -/
def ParseOptions.describe (o : ParseOptions) : String :=
  let rule := o.startRule.elim "None" fun name => "Some(" ++ Text.quote name ++ ")"
  "ParseOptions \x7b start_rule: " ++ rule ++ ", tracer: " ++ toString o.tracer ++ " \x7d"

/-- What a parse gives. -/
structure ParseReport (σ : Type) where
  /-- The value, or why there is none. -/
  outcome : Outcome Value
  /-- The trace events in order. -/
  events : List TraceEvent
  /-- What was counted so far, with this parse. -/
  statistics : Statistics
  /-- The state of the handler after the parse. -/
  handlerState : σ

namespace Parser

/-- The statistics before any parse. -/
def noStatistics (p : Program) : Statistics :=
  .zero (p.rules.toList.map fun r => (r.name, r.memoize && p.memoize))

/-- A parser that interprets machine code. -/
def interpreted (p : Program) : Parser where
  program := p
  executor := .interpreter
  statistics := noStatistics p

/-- A parser that runs routines, if the code of all rules can be unrolled. -/
def unrolled (p : Program) : Except UnrollError Parser := do
  let rs ← p.routines
  return { program := p, executor := .routines rs, statistics := noStatistics p }

/-- The routines that the parser runs, if it does. -/
def routines? (p : Parser) : Option (Array Routine) :=
  match p.executor with
  | .interpreter => none
  | .routines rs => some rs

/-- Whether the parser runs routines. -/
def isUnrolled (p : Parser) : Bool := p.routines?.isSome

/-- A parser as it is shown to a person. -/
def describe (p : Parser) : String :=
  s!"Parser \x7b rules: {p.program.rules.size}, inlined: {p.isUnrolled} \x7d"

variable {σ : Type}

/-- Invoke a rule by the executor. -/
def runRule (p : Parser) (E : Setting σ) (fuel index : Nat) : Run (State σ) Slot :=
  match p.executor with
  | .interpreter => Interpreter.runRule E fuel index
  | .routines rs => Routine.runRule E rs fuel index

/-- The setting of a parse. -/
def setting (p : Parser) (handler : Handler σ) (input : Input) : Setting σ :=
  { p.toExecutable with input, handler }

/-- What a parse gives whose start rule ended in some state. -/
def reportOf (p : Parser) (E : Setting σ) (outcome : Outcome Slot) (s : State σ) :
    ParseReport σ where
  outcome := match outcome with
    | .ok result => s.finish E result
    | .error e => .error e
  events := s.events.reverse
  statistics := s.statistics.getD p.statistics
  handlerState := s.handlerState

/-- What the parser gives for an input from a rule on, or nothing if the fuel does not last. -/
def runFrom (p : Parser) (fuel : Nat) (handler : Handler σ) (hs : σ) (input : Input)
    (start : Nat) : Option (ParseReport σ) :=
  let E := p.setting handler input
  (p.runRule E fuel start (E.initial p.statistics hs)).map fun (outcome, s) =>
    p.reportOf E outcome s

/-- What the parser gives for an input, or nothing if the fuel does not last. -/
def run (p : Parser) (fuel : Nat) (handler : Handler σ) (hs : σ) (input : Input)
    (startRule : Option String) : Option (ParseReport σ) :=
  match p.program.startIndex startRule with
  | .error e => some ⟨.error e, [], p.statistics, hs⟩
  | .ok start => p.runFrom fuel handler hs input start

/-- The parser after a parse that counted on. -/
def withStatistics (p : Parser) (statistics : Statistics) : Parser := { p with statistics }

/-- The statistics of the parses so far, if the program collects them. -/
def statistics? (p : Parser) : Option Statistics :=
  if p.program.statistics then some p.statistics else none

/-- The parser with all counters at zero. -/
def resetStatistics (p : Parser) : Parser := { p with statistics := p.statistics.reset }

end Parser

end PegMachine
