import PegMachine.Machine.Opcode

/-!
# Instructions as listed

Machine code as a flat list of instructions. Blocks of conditions and loops are listed in line, so
a listing has one entry for every opcode word.
-/

namespace PegMachine

/-- One instruction of a listing. -/
structure Instruction where
  /-- The offset of the opcode word. -/
  offset : Nat
  /-- The opcode. -/
  opcode : Opcode
  /-- The operand words. -/
  operands : List UInt32
  deriving DecidableEq, Repr

/-- Why words cannot be listed. -/
inductive ListingError where
  /-- The word at the offset is no opcode. -/
  | invalidOpcode (offset : Nat) (word : UInt32)
  /-- The instruction at the offset needs more words than there are. -/
  | truncated (offset : Nat) (opcode : Opcode)
  deriving DecidableEq, Repr

/-- The message of a listing error. -/
def ListingError.message : ListingError → String
  | .invalidOpcode offset word => s!"invalid opcode {word} at offset {offset}"
  | .truncated offset opcode => s!"truncated {opcode.mnemonic} at offset {offset}"

/-- The offset that a listing error is about. -/
def ListingError.offset : ListingError → Nat
  | .invalidOpcode offset _ => offset
  | .truncated offset _ => offset

namespace Instruction

/-- The number of operands of an opcode that is followed by the given words; nothing if a call
ends before its parameter count. -/
def operandCount? (opcode : Opcode) (rest : List UInt32) : Option Nat :=
  if opcode = .call then (rest[2]?).map (opcode.operands + ·.toNat) else some opcode.operands

/-- The word at an offset as a number; zero past the end of the code. -/
def wordAt (code : Array UInt32) (offset : Nat) : Nat := (code.getD offset 0).toNat

/-- The number of parameter words of the instruction at an offset. -/
def parameterCount? (code : Array UInt32) (ip : Nat) (opcode : Opcode) : Option Nat :=
  if opcode = .call then (code[ip + 3]?).map (·.toNat) else some 0

/-- The number of words of the instruction at an offset, if a whole one stands there. -/
def length? (code : Array UInt32) (ip : Nat) : Option Nat :=
  match (code[ip]?).bind Opcode.ofWord? with
  | none => none
  | some opcode =>
    match parameterCount? code ip opcode with
    | none => none
    | some parameters =>
      let length := 1 + opcode.operands + parameters
      if ip + length ≤ code.size then some length else none

/-- An instruction has at least one word. -/
theorem length?_pos {code : Array UInt32} {ip n : Nat} (h : length? code ip = some n) : 0 < n := by
  unfold length? at h
  split at h
  · cases h
  · split at h
    · cases h
    · dsimp only at h
      split at h
      · cases h; omega
      · cases h

/-- The listing of some words, the first of which stands at an offset. -/
def listFrom (offset : Nat) : List UInt32 → Except ListingError (List Instruction)
  | [] => .ok []
  | word :: rest =>
    match Opcode.ofWord? word with
    | none => .error (.invalidOpcode offset word)
    | some opcode =>
      match operandCount? opcode rest with
      | none => .error (.truncated offset opcode)
      | some n =>
        if n ≤ rest.length then
          (listFrom (offset + 1 + n) (rest.drop n)).map (⟨offset, opcode, rest.take n⟩ :: ·)
        else .error (.truncated offset opcode)
termination_by words => words.length
decreasing_by simp only [List.length_drop, List.length_cons]; omega

/-- The listing of machine code. -/
def listing (code : Array UInt32) : Except ListingError (List Instruction) :=
  listFrom 0 code.toList

/-- The words of an instruction. -/
def words (i : Instruction) : List UInt32 := i.opcode.word :: i.operands

/-- The operands as a listing shows them, the first one after a blank, the others after commas. -/
def describeOperands : List UInt32 → String
  | [] => ""
  | first :: rest => " " ++ ", ".intercalate ((first :: rest).map toString)

/-- The line of an instruction in a listing. -/
def describe (i : Instruction) : String :=
  let offset := toString i.offset
  String.ofList (List.replicate (5 - offset.length) ' ') ++ offset ++ "  " ++ i.opcode.mnemonic
    ++ describeOperands i.operands

end Instruction

end PegMachine
