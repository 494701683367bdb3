import PegMachine.Run.Action
import PegMachine.Run.Basic
import PegMachine.Run.Memo
import PegMachine.Run.Statistics
import PegMachine.Run.Trace
import PegMachine.Unicode.LetterCase

/-!
# The state of a parse

All that a run of a program has besides its operands: the place in the input, the register of
actions, how deep it is in regions without reports, the furthest failure, and optionally a memo
table, statistics and trace events. The instructions of the machine are operations on this state;
both executors are built from them.

`State.rule` wraps the run of a rule's body: it counts and traces the invocation, recalls its
outcome from the memo table if it can, and keeps the outcome there otherwise.
-/

namespace PegMachine

/-- A program with its patterns compiled. -/
structure Executable where
  /-- The program. -/
  program : Program
  /-- The compiled patterns, by index of their constants. -/
  patterns : Array (Option Regex) := program.patterns
  /-- The patterns are those of the program. -/
  patterns_eq : patterns = program.patterns := by rfl

/-- What stays the same during a parse. -/
structure Setting (σ : Type) extends Executable where
  /-- The input. -/
  input : Input
  /-- Who provides the actions. -/
  handler : Handler σ

/-- What changes during a parse. -/
structure State (σ : Type) where
  /-- The current offset. -/
  pos : Nat := 0
  /-- The register of actions: where the text of the next action starts. -/
  savedPos : Nat := 0
  /-- The number of open regions without reports. -/
  silent : Nat := 0
  /-- The offset of the furthest failure. -/
  furthest : Nat := 0
  /-- What was expected there, newest first. -/
  expected : List Expectation := []
  /-- Every report so far with its offset, newest first. Nothing is decided by it: it is the history
  that statements about a parse speak of. -/
  reports : List (Nat × Expectation) := []
  /-- The rule that is being run. -/
  currentRule : Option Nat := none
  /-- The memo table, if memoization is on. -/
  memo : Option MemoTable
  /-- How far the input has been read in search of positions. -/
  tracker : Tracker
  /-- The statistics, if they are collected. -/
  statistics : Option Statistics
  /-- The trace events, newest first. -/
  events : List TraceEvent := []
  /-- The state of the handler of actions. -/
  handlerState : σ

namespace Setting

variable {σ : Type}

/-- The state before a parse, given what was counted before. -/
def initial (E : Setting σ) (statistics : Statistics) (s : σ) : State σ where
  memo :=
    if E.program.memoize then
      some (.forInput E.input.size (E.program.rules.toList.filter (·.memoize)).length)
    else none
  tracker := .ofInput E.input
  statistics := if E.program.statistics then some statistics else none
  handlerState := s

/-- The pattern of a constant. -/
def pattern? (E : Setting σ) (c : Nat) : Option Regex := E.patterns[c]?.join

end Setting

namespace Text

/-- What remains of a text after some characters that it starts with. -/
def strip? : List Char → List Char → Option (List Char)
  | [], text => some text
  | _ :: _, [] => none
  | c :: cs, d :: ds => if c = d then strip? cs ds else none

/-- Whether the lower-case forms of the first characters of a text, one after the other, give
exactly `expected`. -/
def startsWithLowered (expected : List Char) : List Char → Bool
  | [] => expected.isEmpty
  | c :: text =>
    if expected.isEmpty then true
    else
      match strip? (Unicode.lowerChar c) expected with
      | none => false
      | some expected => startsWithLowered expected text

end Text

namespace State

variable {σ : Type}

/-! ## Places -/

/-- A slot with the current offset. -/
def here (s : State σ) : Slot := .pos s.pos

/-- Go back to the offset in a slot, if it holds one. -/
def restorePos (s : State σ) (saved : Slot) : State σ :=
  match saved.pos? with
  | some p => { s with pos := p }
  | none => s

/-- Load the register of actions from a slot, if it holds an offset. -/
def loadSavedPos (s : State σ) (saved : Slot) : State σ :=
  match saved.pos? with
  | some p => { s with savedPos := p }
  | none => s

/-- Set the register of actions to the current offset. -/
def updateSavedPos (s : State σ) : State σ := { s with savedPos := s.pos }

/-- Open a region without reports. -/
def silentOn (s : State σ) : State σ := { s with silent := s.silent + 1 }

/-- Close a region without reports. -/
def silentOff (s : State σ) : State σ := { s with silent := s.silent - 1 }

/-- Close every region without reports. -/
def silentReset (s : State σ) : State σ := { s with silent := 0 }

/-- Whether failures are not reported. -/
def isSilent (s : State σ) : Bool := 0 < s.silent

/-! ## Matching -/

/-- The text that is left. -/
def rest (E : Setting σ) (s : State σ) : List Char := E.input.rest s.pos

/-- Whether any text is left. -/
def matchAny (E : Setting σ) (s : State σ) : Bool := s.pos < E.input.size

/-- Whether a string constant follows. -/
def matchString (E : Setting σ) (s : State σ) (c : Nat) : Bool :=
  (E.program.string c).toList.isPrefixOf (s.rest E)

/-- Whether text follows that gives a string constant in lower case. -/
def matchStringIc (E : Setting σ) (s : State σ) (c : Nat) : Bool :=
  Text.startsWithLowered (E.program.string c).toList (s.rest E)

/-- Whether a pattern matches here. -/
def matchRegexp (E : Setting σ) (s : State σ) (c : Nat) : Bool :=
  (E.pattern? c).any (·.isMatch (s.rest E))

/-- Move past some text, which becomes the result. -/
def accept (s : State σ) (text : List Char) : Slot × State σ :=
  (.text (String.ofList text), { s with pos := s.pos + Text.byteSize text })

/-- Take the next `n` characters, or all if there are fewer. -/
def acceptN (E : Setting σ) (s : State σ) (n : Nat) : Slot × State σ :=
  s.accept ((s.rest E).take n)

/-- Take a string constant. -/
def acceptString (E : Setting σ) (s : State σ) (c : Nat) : Slot × State σ :=
  s.accept (E.program.string c).toList

/-- Take the text that a pattern matches; nothing if it does not match. -/
def acceptRegexp (E : Setting σ) (s : State σ) (c : Nat) : Slot × State σ :=
  let length := ((E.pattern? c).bind (·.matchEnd? (s.rest E))).getD 0
  s.accept (Text.takeBytes length (s.rest E))

/-- A slot with a string constant. -/
def constant (E : Setting σ) (c : Nat) : Slot := .text (E.program.string c)

/-- The text from a saved offset to the current one. -/
def textFrom (E : Setting σ) (s : State σ) (saved : Slot) : Slot :=
  .text (E.input.slice (saved.pos?.getD s.pos) s.pos)

/-! ## Failing -/

/-- Change the counters of a rule, if statistics are collected. -/
def count (s : State σ) (rule : Nat) (f : RuleCounters → RuleCounters) : State σ :=
  { s with statistics := s.statistics.map (·.update rule f) }

/-- Change the counters of the rule that is being run. -/
def countCurrent (s : State σ) (f : RuleCounters → RuleCounters) : State σ :=
  match s.currentRule with
  | some rule => s.count rule f
  | none => s

/-- Report what was expected at the current offset; only the furthest reports count. -/
def report (s : State σ) (e : Expectation) : State σ :=
  let s := { s with reports := (s.pos, e) :: s.reports }
  if s.pos < s.furthest then s
  else if s.furthest < s.pos then { s with furthest := s.pos, expected := [e] }
  else { s with expected := e :: s.expected }

/-- Fail for want of something, which is reported unless failures are not. -/
def failFor (s : State σ) (e : Expectation) : State σ :=
  let silent := s.isSilent
  let s := s.countCurrent (·.countFail silent)
  if silent then s else s.report e

/-- Fail for want of an expectation constant. -/
def fail (E : Setting σ) (s : State σ) (c : Nat) : Slot × State σ :=
  match E.program.expectation? c with
  | some e => (.failed, s.failFor e)
  | none => (.failed, s.countCurrent (·.countFail s.isSilent))

/-- Fail without a report. -/
def pushFailed (s : State σ) : Slot × State σ := (.failed, s.countCurrent (·.countPushedFail))

/-! ## Calling -/

/-- The place between two offsets. -/
def locate (s : State σ) (start stop : Nat) : Location × State σ :=
  let (location, tracker) := s.tracker.location start stop
  (location, { s with tracker })

/-- What an action sees now. -/
def actionContext (E : Setting σ) (s : State σ) : ActionContext where
  input := E.input
  start := s.savedPos
  stop := s.pos
  ruleName := s.currentRule.elim "" E.program.ruleName

/-- Run an action, which stands at an index of the pool, on the text from the register of actions
to the current offset. -/
def perform (E : Setting σ) (s : State σ) (index : Nat) (action : Program.Action)
    (args : List Value) : Outcome Slot × State σ :=
  let context := s.actionContext E
  let (answer, handlerState) := E.handler index action context args s.handlerState
  let s := { s with handlerState }
  match answer with
  | .ok value => (.ok (.value value), s)
  | .error .withdraw => (.ok .failed, { s with pos := s.savedPos })
  | .error (.expected description) =>
    let (location, s) := s.locate s.savedPos s.pos
    (.error (.mismatch (.ofExpected [.other description] (some context.text) location)), s)
  | .error (.error message) =>
    let (location, s) := s.locate s.savedPos s.pos
    (.error (.mismatch (.custom message (some context.text) location)), s)
  | .error .unbound => (.error (.unboundAction index action.code), s)

/-- Run the action at an index of the pool. -/
def call (E : Setting σ) (s : State σ) (index : Nat) (args : List Value) :
    Outcome Slot × State σ :=
  match E.program.actions[index]? with
  | none => (.error (.unboundAction index ""), s)
  | some action => s.perform E index action args

/-! ## Rules -/

/-- Emit a trace event, if the program is traced. -/
def trace (E : Setting σ) (s : State σ) (kind : TraceEvent.Kind) (rule start stop : Nat)
    (result : Option Slot) : State σ :=
  if E.program.trace then
    let (location, s) := s.locate start stop
    let value := match result with
      | some (.value v) => some v
      | _ => none
    { s with events := ⟨kind, E.program.ruleName rule, location, value⟩ :: s.events }
  else s

/-- The outcome of a memoized rule at the current offset, if it was kept. What was kept from a
region without reports counts only in such a region. -/
def memoized? (E : Setting σ) (s : State σ) (rule : Nat) : Option (Nat × Slot) :=
  if E.program.isMemoized rule then
    ((s.memo.bind (·.get? s.pos rule)).filter fun e => s.isSilent || !e.silent).map
      fun e => (e.nextPos, e.result)
  else none

/-- Keep the outcome of a rule that was invoked at an offset, if it is memoized. -/
def remember (E : Setting σ) (s : State σ) (rule start : Nat) (result : Slot) : State σ :=
  if E.program.isMemoized rule then
    let entry : MemoEntry := ⟨start, rule, s.pos, result, s.isSilent⟩
    { s with memo := s.memo.map (·.insert entry) }
  else s

/-- Go on with an outcome that was recalled. -/
def recalled (E : Setting σ) (s : State σ) (rule start nextPos : Nat) (result : Slot) :
    State σ :=
  let failed := result.isFailed
  let s := { s with pos := nextPos }.count rule (·.countRecall s.currentRule failed s.isSilent)
  if failed then s.trace E .recalledFailure rule start start none
  else s.trace E .recalledMatch rule start s.pos (some result)

/-- Go on after the body of a rule gave a result. -/
def returned (E : Setting σ) (s : State σ) (rule start : Nat) (result : Slot) : State σ :=
  let failed := result.isFailed
  let s := (s.remember E rule start result).count rule (·.countReturn failed s.isSilent)
  if failed then s.trace E .failed rule start start none
  else s.trace E .matched rule start s.pos (some result)

/-- Enter a rule. -/
def entered (E : Setting σ) (s : State σ) (rule : Nat) : State σ :=
  (s.count rule (·.countVisit s.currentRule)).trace E .enter rule s.pos s.pos none

/-- Leave a rule that was entered in some state, given what became of its body. -/
def left (E : Setting σ) (entry : State σ) (rule : Nat) (outcome : Outcome Slot) (s : State σ) :
    State σ :=
  let s := { s with currentRule := entry.currentRule }
  match outcome with
  | .ok result => s.returned E rule entry.pos result
  | .error _ => s

/-- Invoke a rule with a body. -/
def rule (E : Setting σ) (index : Nat) (body : Run (State σ) Slot) : Run (State σ) Slot := fun s =>
  let entry := s.entered E index
  match entry.memoized? E index with
  | some (nextPos, result) => some (.ok result, entry.recalled E index s.pos nextPos result)
  | none =>
    match body { entry with currentRule := some index } with
    | some (outcome, t) => some (outcome, State.left E s index outcome t)
    | none => none

/-! ## Ending -/

/-- The failure of a parse that could not go on. -/
def failure (E : Setting σ) (s : State σ) : ParseFailure :=
  let found := (E.input.rest s.furthest).head?
  let stop := s.furthest + found.elim 0 Char.utf8Size
  let (location, _) := s.tracker.location s.furthest stop
  .mismatch (.ofExpected s.expected (found.map String.singleton) location)

/-- The outcome of a parse, given the result of its start rule: the whole input has to match. -/
def finish (E : Setting σ) (s : State σ) (result : Slot) : Outcome Value :=
  if result.isFailed then .error (s.failure E)
  else if s.pos = E.input.size then .ok result.toValue
  else if s.pos < E.input.size then .error ((s.report .endOfInput).failure E)
  else .error (s.failure E)

end State

end PegMachine
