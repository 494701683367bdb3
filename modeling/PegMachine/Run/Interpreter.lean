import PegMachine.Run.State

/-!
# Interpreting machine code

A frame is the run of one rule's code: a stack of slots, the place in the code, and the places
where to go on after the blocks that were entered. `step` runs one instruction; an instruction
that invokes another rule is left to the caller, `runFrame`, which goes through `State.rule`.

Code that is not well formed is run leniently: words that are no opcodes are skipped, and what is
missing on the stack counts as a failure.
-/

namespace PegMachine

/-- The run of the code of one rule. -/
structure Frame where
  /-- The code. -/
  code : Array UInt32
  /-- The stack, its top first. -/
  stack : List Slot := []
  /-- The offset of the next instruction. -/
  ip : Nat := 0
  /-- The offset where the innermost block ends. -/
  stop : Nat
  /-- For each block that was entered, where the block around it ends and where to go on there. -/
  resume : List (Nat × Nat) := []

namespace Frame

/-- The frame before the run of some code. -/
def start (code : Array UInt32) : Frame where
  code := code
  stop := code.size

/-- The top of the stack. -/
def top (f : Frame) : Slot := f.stack.headD .failed

/-- The word some places after the next instruction. -/
def operand (f : Frame) (i : Nat) : Nat := Instruction.wordAt f.code (f.ip + i)

/-- Go on after the next instruction, which has some operands. -/
def advance (f : Frame) (operands : Nat) : Frame := { f with ip := f.ip + 1 + operands }

/-- Go on with another stack after the next instruction. -/
def moveTo (f : Frame) (stack : List Slot) (operands : Nat) : Frame :=
  { f with stack, ip := f.ip + 1 + operands }

/-- Enter one of the two blocks after the next instruction, whose last operands are their
lengths. -/
def branch (f : Frame) (operands : Nat) (taken : Bool) : Frame :=
  let base := f.ip + 1 + operands
  let t := f.operand (operands - 1)
  let e := f.operand operands
  let resume := (f.stop, base + t + e) :: f.resume
  if taken then { f with ip := base, stop := base + t, resume }
  else { f with ip := base + t, stop := base + t + e, resume }

/-- Enter the body of the loop after the next instruction, or go on after it. After the body the
loop itself is next. -/
def loop (f : Frame) (taken : Bool) : Frame :=
  let base := f.ip + 2
  let b := f.operand 1
  if taken then { f with ip := base, stop := base + b, resume := (f.stop, f.ip) :: f.resume }
  else { f with ip := base + b }

/-- Append a slot to the list below it. -/
def appendTop : List Slot → List Slot
  | value :: array :: rest => array.push value :: rest
  | _ => []

end Frame

/-- What one instruction leads to. -/
inductive Step (σ : Type) where
  /-- The next instruction. -/
  | next (f : Frame) (s : State σ)
  /-- The invocation of a rule, whose result is to be pushed. -/
  | invoke (rule : Nat) (f : Frame) (s : State σ)
  /-- The end of the parse. -/
  | abort (e : ParseFailure) (s : State σ)
  /-- The end of the code, with a result. -/
  | done (result : Slot) (s : State σ)

namespace Interpreter

variable {σ : Type}

/-- Whether the condition of a branching instruction or of a loop holds, given the words of the
instruction. -/
def holds (E : Setting σ) (opcode : Opcode) (arg : Nat → Nat) (stack : List Slot) (s : State σ) :
    Bool :=
  let top := stack.headD .failed
  match opcode with
  | .ifTruthy => top.isTruthy
  | .ifError => top.isFailed
  | .ifArrlenMin => decide (top.arrayLength < arg 1)
  | .ifArrlenMax => decide (arg 1 ≤ top.arrayLength)
  | .matchAny => s.matchAny E
  | .matchString => s.matchString E (arg 1)
  | .matchStringIc => s.matchStringIc E (arg 1)
  | .matchRegexp => s.matchRegexp E (arg 1)
  | _ => !top.isFailed

/-- Push what an operation on the state gives. -/
def pushing (stack : List Slot) (r : Slot × State σ) : Outcome (List Slot) × State σ :=
  (.ok (r.1 :: stack), r.2)

/-- Run an instruction that has no blocks and invokes no rule, given its words. -/
def plain (E : Setting σ) (opcode : Opcode) (arg : Nat → Nat) (stack : List Slot) (s : State σ) :
    Outcome (List Slot) × State σ :=
  let top := stack.headD .failed
  match opcode with
  | .push => (.ok (State.constant E (arg 1) :: stack), s)
  | .pushUndefined => (.ok (.value .undefined :: stack), s)
  | .pushNull => (.ok (.value .null :: stack), s)
  | .pushFailed => pushing stack s.pushFailed
  | .pushEmptyArray => (.ok (.emptyArray :: stack), s)
  | .pushCurrPos => (.ok (s.here :: stack), s)
  | .pop => (.ok stack.tail, s)
  | .popCurrPos => (.ok stack.tail, s.restorePos top)
  | .popN => (.ok (stack.drop (arg 1)), s)
  | .nip => (.ok (top :: stack.drop 2), s)
  | .append => (.ok (Frame.appendTop stack), s)
  | .wrap => (.ok (.wrap (stack.take (arg 1)).reverse :: stack.drop (arg 1)), s)
  | .text => (.ok (s.textFrom E top :: stack.tail), s)
  | .acceptN => pushing stack (s.acceptN E (arg 1))
  | .acceptString => pushing stack (s.acceptString E (arg 1))
  | .acceptRegexp => pushing stack (s.acceptRegexp E (arg 1))
  | .fail => pushing stack (s.fail E (arg 1))
  | .loadSavedPos => (.ok stack, s.loadSavedPos (stack.getD (arg 1) .failed))
  | .updateSavedPos => (.ok stack, s.updateSavedPos)
  | .call =>
    let args := (List.range (arg 3)).map fun i => (stack.getD (arg (4 + i)) .failed).toValue
    match s.call E (arg 1) args with
    | (.ok value, s) => (.ok (value :: stack.drop (arg 2)), s)
    | (.error e, s) => (.error e, s)
  | .silentFailsOn => (.ok stack, s.silentOn)
  | .silentFailsOff => (.ok stack, s.silentOff)
  | .silentFailsReset => (.ok stack, s.silentReset)
  | _ => (.ok stack, s)

/-- Run the instruction with an opcode. -/
def stepOpcode (E : Setting σ) (f : Frame) (s : State σ) (opcode : Opcode) : Step σ :=
  if opcode.isCondition then
    .next (f.branch opcode.operands (holds E opcode f.operand f.stack s)) s
  else if opcode.isLoop then .next (f.loop (holds E opcode f.operand f.stack s)) s
  else if opcode = .rule then .invoke (f.operand 1) (f.advance 1) s
  else
    match plain E opcode f.operand f.stack s with
    | (.ok stack, s) => .next (f.moveTo stack (opcode.width f.operand)) s
    | (.error e, s) => .abort e s

/-- Run one instruction, or leave a block that has come to its end. -/
def step (E : Setting σ) (f : Frame) (s : State σ) : Step σ :=
  if f.ip < f.stop then
    match f.code[f.ip]?.bind Opcode.ofWord? with
    | some opcode => stepOpcode E f s opcode
    | none => .next (f.advance 0) s
  else
    match f.resume with
    | (stop, ip) :: resume => .next { f with ip, stop, resume } s
    | [] => .done f.top s

/-- Run a frame to its end, for as long as the fuel lasts. -/
def runFrame (E : Setting σ) : Nat → Frame → Run (State σ) Slot
  | 0, _ => .forever
  | fuel + 1, f => fun s =>
    match step E f s with
    | .next f s => runFrame E fuel f s
    | .done result s => some (.ok result, s)
    | .abort e s => some (.error e, s)
    | .invoke index f s =>
      let body : Run (State σ) Slot :=
        match E.program.rules[index]? with
        | some rule => runFrame E fuel (.start rule.code)
        | none => pure .failed
      match State.rule E index body s with
      | some (.ok result, s) => runFrame E fuel { f with stack := result :: f.stack } s
      | some (.error e, s) => some (.error e, s)
      | none => none

/-- Run the code of a rule, without what surrounds an invocation. -/
def runBody (E : Setting σ) (fuel index : Nat) : Run (State σ) Slot :=
  match E.program.rules[index]? with
  | some rule => runFrame E fuel (.start rule.code)
  | none => pure .failed

/-- Invoke a rule. -/
def runRule (E : Setting σ) (fuel index : Nat) : Run (State σ) Slot :=
  State.rule E index (runBody E fuel index)

end Interpreter

end PegMachine
