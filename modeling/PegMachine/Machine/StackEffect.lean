import PegMachine.Machine.Instruction

/-!
# Stack effects

How far a block of machine code moves the top of the stack. Both blocks of a condition have to
move it equally far and the body of a loop must not move it at all; then the effect does not
depend on the way taken through the code. Sums are kept in 32 bits.
-/

namespace PegMachine

/-- Why a block has no stack effect. -/
inductive StackEffectError where
  /-- The word at the offset is no opcode. -/
  | invalidOpcode (word : UInt32) (offset : Nat)
  /-- The instruction at the offset needs more words than there are. -/
  | truncated (opcode : Opcode) (offset : Nat)
  /-- The blocks of a condition reach past the end of the code. -/
  | blocksPastEnd (opcode : Opcode) (offset : Nat)
  /-- The body of a loop reaches past the end of the code. -/
  | bodyPastEnd (opcode : Opcode) (offset : Nat)
  /-- The blocks of a condition differ in their effects. -/
  | unequalBranches (held otherwise : Int32)
  /-- The body of a loop has an effect. -/
  | movingBody (effect : Int32)
  deriving DecidableEq, Repr

/-- The message of a stack effect error. -/
def StackEffectError.message : StackEffectError → String
  | .invalidOpcode word offset => s!"invalid opcode {word} at offset {offset}"
  | .truncated opcode offset => s!"truncated {opcode.mnemonic} at offset {offset}"
  | .blocksPastEnd opcode offset =>
    s!"{opcode.mnemonic} at offset {offset} has blocks past the end of the code"
  | .bodyPastEnd opcode offset =>
    s!"{opcode.mnemonic} at offset {offset} has a body past the end of the code"
  | .unequalBranches held otherwise =>
    "Branches of a condition can't move the stack pointer differently (then: "
      ++ toString held.toInt ++ ", else: " ++ toString otherwise.toInt ++ ")."
  | .movingBody effect =>
    "Body of a loop can't move the stack pointer (moved by " ++ toString effect.toInt ++ ")."

namespace StackEffect

/-- The effect of an instruction without blocks, given its operands. -/
def plain (opcode : Opcode) (operands : List UInt32) : Int32 :=
  let operand (i : Nat) : Int32 := (operands.getD i 0).toInt32
  match opcode with
  | .push | .pushCurrPos | .acceptN | .acceptString | .acceptRegexp | .fail | .rule
  | .pushUndefined | .pushNull | .pushFailed | .pushEmptyArray => 1
  | .pop | .popCurrPos | .nip | .append => -1
  | .popN => -operand 0
  | .wrap => 1 - operand 0
  | .call => 1 - operand 1
  | _ => 0

/-- The effect of some words, added to the effect so far. The offset of the first word is counted
from the start of the innermost block. -/
def effectFrom (offset : Nat) (effect : Int32) : List UInt32 → Except StackEffectError Int32
  | [] => .ok effect
  | word :: rest =>
    match Opcode.ofWord? word with
    | none => .error (.invalidOpcode word offset)
    | some opcode =>
      match Instruction.operandCount? opcode rest with
      | none => .error (.truncated opcode offset)
      | some n =>
        if rest.length < n then .error (.truncated opcode offset)
        else
          let operands := rest.take n
          let after := rest.drop n
          if opcode.isCondition then
            let t := (operands.getD (n - 2) 0).toNat
            let f := (operands.getD (n - 1) 0).toNat
            if after.length < t + f then .error (.blocksPastEnd opcode offset)
            else do
              let held ← effectFrom 0 0 (after.take t)
              let otherwise ← effectFrom 0 0 ((after.drop t).take f)
              if held ≠ otherwise then throw (.unequalBranches held otherwise)
              effectFrom (offset + 1 + n + t + f) (effect + held) (after.drop (t + f))
          else if opcode.isLoop then
            let b := (operands.getD (n - 1) 0).toNat
            if after.length < b then .error (.bodyPastEnd opcode offset)
            else do
              let body ← effectFrom 0 0 (after.take b)
              if body ≠ 0 then throw (.movingBody body)
              effectFrom (offset + 1 + n + b) effect (after.drop b)
          else effectFrom (offset + 1 + n) (effect + plain opcode operands) after
termination_by words => words.length
decreasing_by
  all_goals
    simp only [List.length_drop, List.length_take, List.length_cons]
    omega

end StackEffect

/-- How far a block of machine code moves the top of the stack. -/
def stackEffect (code : List UInt32) : Except StackEffectError Int32 :=
  StackEffect.effectFrom 0 0 code

end PegMachine
