import PegMachine.Machine.StackEffect

/-!
# Structured code

Machine code before its blocks are laid out: conditions and loops contain their blocks. `assemble`
lays the words out; `effect` tells how far code moves the top of the stack, provided that the
blocks of every condition move it equally far and the body of every loop does not move it.
-/

namespace PegMachine

/-- An instruction with the blocks that belong to it. -/
inductive Instr where
  /-- An instruction without blocks. -/
  | plain (opcode : Opcode) (operands : List UInt32)
  /-- A condition and its two blocks. -/
  | branch (opcode : Opcode) (operands : List UInt32) (held otherwise : List Instr)
  /-- A loop that runs its body while the top of the stack is no failure. -/
  | loop (body : List Instr)
  deriving Repr

/-- Structured code. -/
abbrev Code := List Instr

namespace Instr

mutual

/-- The words of an instruction. -/
def assemble : Instr → List UInt32
  | .plain opcode operands => opcode.word :: operands
  | .branch opcode operands held otherwise =>
    let t := assembleAll held
    let f := assembleAll otherwise
    opcode.word :: (operands ++ [UInt32.ofNat t.length, UInt32.ofNat f.length] ++ t ++ f)
  | .loop body =>
    let b := assembleAll body
    Opcode.whileNotError.word :: UInt32.ofNat b.length :: b

/-- The words of some code. -/
def assembleAll : List Instr → List UInt32
  | [] => []
  | i :: rest => i.assemble ++ assembleAll rest

end

mutual

/-- How far an instruction moves the top of the stack. -/
def effect : Instr → Int32
  | .plain opcode operands => StackEffect.plain opcode operands
  | .branch _ _ held _ => effectAll held
  | .loop _ => 0

/-- How far some code moves the top of the stack. -/
def effectAll : List Instr → Int32
  | [] => 0
  | i :: rest => i.effect + effectAll rest

end

theorem assembleAll_append (a b : List Instr) :
    assembleAll (a ++ b) = assembleAll a ++ assembleAll b := by
  induction a with
  | nil => rfl
  | cons i rest ih => simp [assembleAll, ih]

theorem effectAll_append (a b : List Instr) : effectAll (a ++ b) = effectAll a + effectAll b := by
  induction a with
  | nil => simp [effectAll]
  | cons i rest ih => simp [effectAll, ih, Int32.add_assoc]

end Instr

namespace Code

/-- The words of some code. -/
def assemble (c : Code) : List UInt32 := Instr.assembleAll c

/-- How far some code moves the top of the stack. -/
def effect (c : Code) : Int32 := Instr.effectAll c

/-- An instruction without operands. -/
def op (opcode : Opcode) : Instr := .plain opcode []

/-- An instruction with one operand. -/
def op1 (opcode : Opcode) (operand : UInt32) : Instr := .plain opcode [operand]

/-- A condition whose blocks move the stack equally far. -/
def branch (opcode : Opcode) (operands : List UInt32) (held otherwise : Code) :
    Except StackEffectError Instr :=
  if held.effect = otherwise.effect then .ok (.branch opcode operands held otherwise)
  else .error (.unequalBranches held.effect otherwise.effect)

/-- A loop whose body does not move the stack. -/
def loop (body : Code) : Except StackEffectError Instr :=
  if body.effect = 0 then .ok (.loop body) else .error (.movingBody body.effect)

/-- A condition is made only of blocks that move the stack equally far. -/
theorem branch_eq_ok_iff {opcode : Opcode} {operands : List UInt32} {held otherwise : Code}
    {i : Instr} : branch opcode operands held otherwise = .ok i ↔
      held.effect = otherwise.effect ∧ i = .branch opcode operands held otherwise := by
  unfold branch
  split <;> simp_all [eq_comm]

/-- A loop is made only of a body that does not move the stack. -/
theorem loop_eq_ok_iff {body : Code} {i : Instr} :
    loop body = .ok i ↔ body.effect = 0 ∧ i = .loop body := by
  unfold loop
  split <;> simp_all [eq_comm]

end Code

end PegMachine
