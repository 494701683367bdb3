import PegMachine.Machine.Instruction

/-!
# Routines

A rule's code unrolled into statements over numbered slots. The stack is gone: an entry at height
`n` lives in slot `n`, conditions become two-way branches and jumps over loop bodies become loops.
A routine leaves its result in slot zero.

Unrolling follows the height of the stack through the code, so it refuses code that reads below
the bottom, whose branches disagree about the height, or that does not end with one entry.
-/

namespace PegMachine

namespace Routine

/-- An expression; evaluating it may move through the input. -/
inductive Expr where
  /-- A string constant. -/
  | const (c : Nat)
  /-- The current offset. -/
  | currPos
  /-- The content of a slot, which is left failed. -/
  | take (slot : Nat)
  /-- The undefined value. -/
  | undefined
  /-- Null. -/
  | null
  /-- A failure without a report. -/
  | failed
  /-- An empty list. -/
  | emptyArray
  /-- A list of the contents of `n` slots, which are left failed. -/
  | wrap (first n : Nat)
  /-- The text from the offset in a slot to the current offset. -/
  | text (slot : Nat)
  /-- The next characters. -/
  | acceptN (n : Nat)
  /-- A string constant that was seen to follow. -/
  | acceptString (c : Nat)
  /-- The text that a pattern constant matches. -/
  | acceptRegexp (c : Nat)
  /-- A failure that reports an expectation constant. -/
  | fail (c : Nat)
  /-- The result of an action on the contents of some slots. -/
  | call (action : Nat) (args : List Nat)
  /-- The result of a rule. -/
  | rule (index : Nat)
  deriving DecidableEq, Repr

/-- A condition. -/
inductive Cond where
  /-- The slot is true. -/
  | truthy (slot : Nat)
  /-- The slot marks a failure. -/
  | isFailed (slot : Nat)
  /-- The slot marks no failure. -/
  | notFailed (slot : Nat)
  /-- Some input is left. -/
  | matchAny
  /-- A string constant follows. -/
  | matchString (c : Nat)
  /-- A lower-case string constant follows, ignoring case. -/
  | matchStringIc (c : Nat)
  /-- A pattern constant matches here. -/
  | matchRegexp (c : Nat)
  /-- The list in the slot has fewer items. -/
  | arrayShorter (slot n : Nat)
  /-- The list in the slot has at least so many items. -/
  | arrayAtLeast (slot n : Nat)
  deriving DecidableEq, Repr

/-- A statement. -/
inductive Stmt where
  /-- Put the value of an expression into a slot. -/
  | assign (slot : Nat) (value : Expr)
  /-- Go back to the offset in a slot. -/
  | restorePos (slot : Nat)
  /-- Load the register of actions from a slot. -/
  | loadSavedPos (slot : Nat)
  /-- Set the register of actions to the current offset. -/
  | updateSavedPos
  /-- Stop reporting failures. -/
  | silentOn
  /-- End one region without reports. -/
  | silentOff
  /-- End every region without reports. -/
  | silentReset
  /-- Append the content of the second slot, which is left failed, to the list in the first. -/
  | append (array item : Nat)
  /-- Run one of two blocks. -/
  | branch (cond : Cond) (held otherwise : List Stmt)
  /-- Run a block while a condition holds. -/
  | loop (cond : Cond) (body : List Stmt)
  deriving Repr

end Routine

/-- A rule as a routine. -/
structure Routine where
  /-- The index of the rule. -/
  rule : Nat
  /-- The name of the rule. -/
  name : String
  /-- The number of slots. -/
  slots : Nat
  /-- The statements. -/
  body : List Routine.Stmt
  deriving Repr

/-- Why code cannot be unrolled. -/
inductive UnrollError where
  /-- No whole instruction stands at the offset, or its blocks leave the block around it. -/
  | malformed (rule : String) (offset : Nat)
  /-- The blocks of the condition at the offset leave different heights. -/
  | branchMismatch (rule : String) (offset : Nat)
  /-- The body of the loop at the offset changes the height. -/
  | loopMovesStack (rule : String) (offset : Nat)
  /-- The instruction at the offset reads below the bottom of the stack. -/
  | stackUnderflow (rule : String) (offset : Nat)
  /-- The rule does not end with one entry. -/
  | unbalanced (rule : String) (height : Nat)
  deriving DecidableEq, Repr

/-- The message of an unrolling error. -/
def UnrollError.message : UnrollError → String
  | .malformed rule offset =>
    "malformed bytecode in rule \"" ++ rule ++ s!"\" at offset {offset}"
  | .branchMismatch _ _ => "Branches of a condition must move the stack pointer in the same way."
  | .loopMovesStack _ _ => "Body of a loop can't move the stack pointer."
  | .stackUnderflow rule offset =>
    "stack underflow in rule \"" ++ rule ++ s!"\" at offset {offset}"
  | .unbalanced rule height => "rule \"" ++ rule ++ s!"\" ends with stack depth {height}"

namespace Routine

/-- What unrolling some code gives. -/
structure Unrolled where
  /-- The statements. -/
  body : List Stmt
  /-- The height of the stack after the code. -/
  height : Nat
  /-- The greatest height reached by a push. -/
  peak : Nat

/-- What remains of a height after `n` entries are dropped. -/
def dropped? (height n : Nat) : Option Nat := if n ≤ height then some (height - n) else none

/-- The slot of the entry `offset` below the top. -/
def slotBelow? (height offset : Nat) : Option Nat :=
  if offset < height then some (height - 1 - offset) else none

/-- A push at the given height. -/
def pushed (height : Nat) (value : Expr) : List Stmt × Nat := ([.assign height value], height + 1)

/-- The statements of an instruction without blocks and the height after it, or nothing if it
reads below the bottom of the stack. -/
def plain? (opcode : Opcode) (arg : Nat → Nat) (height : Nat) : Option (List Stmt × Nat) :=
  match opcode with
  | .push => some (pushed height (.const (arg 1)))
  | .pushCurrPos => some (pushed height .currPos)
  | .pushUndefined => some (pushed height .undefined)
  | .pushNull => some (pushed height .null)
  | .pushFailed => some (pushed height .failed)
  | .pushEmptyArray => some (pushed height .emptyArray)
  | .acceptN => some (pushed height (.acceptN (arg 1)))
  | .acceptString => some (pushed height (.acceptString (arg 1)))
  | .acceptRegexp => some (pushed height (.acceptRegexp (arg 1)))
  | .fail => some (pushed height (.fail (arg 1)))
  | .rule => some (pushed height (.rule (arg 1)))
  | .pop => (dropped? height 1).map ([], ·)
  | .popN => (dropped? height (arg 1)).map ([], ·)
  | .popCurrPos => (slotBelow? height 0).map fun top => ([.restorePos top], top)
  | .nip => (slotBelow? height 1).map fun below => ([.assign below (.take (below + 1))], below + 1)
  | .append => (slotBelow? height 1).map fun below => ([.append below (below + 1)], below + 1)
  | .wrap => (dropped? height (arg 1)).map fun first => pushed first (.wrap first (arg 1))
  | .text => (slotBelow? height 0).map fun top => ([.assign top (.text top)], height)
  | .loadSavedPos =>
    (slotBelow? height (arg 1)).map fun slot => ([.loadSavedPos slot], height)
  | .updateSavedPos => some ([.updateSavedPos], height)
  | .call => do
    let args ← ((List.range (arg 3)).map fun i => arg (4 + i)).mapM (slotBelow? height)
    let height ← dropped? height (arg 2)
    return pushed height (.call (arg 1) args)
  | .silentFailsOn => some ([.silentOn], height)
  | .silentFailsOff => some ([.silentOff], height)
  | .silentFailsReset => some ([.silentReset], height)
  | _ => none

/-- The condition of a branching instruction, or nothing if it looks below the bottom. -/
def cond? (opcode : Opcode) (arg : Nat → Nat) (height : Nat) : Option Cond :=
  match opcode with
  | .ifTruthy => (slotBelow? height 0).map .truthy
  | .ifError => (slotBelow? height 0).map .isFailed
  | .ifArrlenMin => (slotBelow? height 0).map (.arrayShorter · (arg 1))
  | .ifArrlenMax => (slotBelow? height 0).map (.arrayAtLeast · (arg 1))
  | .matchAny => some .matchAny
  | .matchString => some (.matchString (arg 1))
  | .matchStringIc => some (.matchStringIc (arg 1))
  | .matchRegexp => some (.matchRegexp (arg 1))
  | _ => (slotBelow? height 0).map .notFailed

/-- Unroll the instructions that start between two offsets. -/
def unrollBlock (code : Array UInt32) (name : String) (ip stop height peak : Nat) :
    Except UnrollError Unrolled :=
  if _hip : ip < stop then
    match Opcode.ofWord? (code.getD ip 0), _hlen : Instruction.length? code ip with
    | some opcode, some length =>
      let base := ip + length
      if opcode.isCondition then
        let t := Instruction.wordAt code (ip + (length - 2))
        let f := Instruction.wordAt code (ip + (length - 1))
        match cond? opcode (fun i => Instruction.wordAt code (ip + i)) height with
        | none => .error (.stackUnderflow name ip)
        | some cond =>
          if _hend : base + t + f ≤ stop then do
            let held ← unrollBlock code name base (base + t) height peak
            let otherwise ← unrollBlock code name (base + t) (base + t + f) height held.peak
            if held.height ≠ otherwise.height then throw (.branchMismatch name ip)
            let rest ← unrollBlock code name (base + t + f) stop held.height otherwise.peak
            return { rest with body := .branch cond held.body otherwise.body :: rest.body }
          else .error (.malformed name ip)
      else if opcode.isLoop then
        let b := Instruction.wordAt code (ip + (length - 1))
        match cond? opcode (fun i => Instruction.wordAt code (ip + i)) height with
        | none => .error (.stackUnderflow name ip)
        | some cond =>
          if _hend : base + b ≤ stop then do
            let body ← unrollBlock code name base (base + b) height peak
            if body.height ≠ height then throw (.loopMovesStack name ip)
            let rest ← unrollBlock code name (base + b) stop height body.peak
            return { rest with body := .loop cond body.body :: rest.body }
          else .error (.malformed name ip)
      else
        match plain? opcode (fun i => Instruction.wordAt code (ip + i)) height with
        | none => .error (.stackUnderflow name ip)
        | some (stmts, after) => do
          let rest ← unrollBlock code name base stop after (max peak after)
          return { rest with body := stmts ++ rest.body }
    | _, _ => .error (.malformed name ip)
  else .ok ⟨[], height, peak⟩
termination_by stop - ip
decreasing_by
  all_goals
    have := Instruction.length?_pos _hlen
    omega

/-- Unroll the code of one rule. -/
def unroll (index : Nat) (name : String) (code : Array UInt32) : Except UnrollError Routine := do
  let unrolled ← unrollBlock code name 0 code.size 0 0
  if unrolled.height ≠ 1 then throw (.unbalanced name unrolled.height)
  return ⟨index, name, max unrolled.peak 1, unrolled.body⟩

end Routine

end PegMachine
