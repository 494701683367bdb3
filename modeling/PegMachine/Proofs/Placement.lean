import PegMachine.Proofs.Structured

/-!
# Laying out structured code

The words that structured code is assembled into stand for it, provided that every instruction has
the operands that its opcode asks for and that lengths fit into words.
-/

namespace PegMachine

namespace Instr

/-- The operands of an instruction are as many as its opcode, or the instruction itself, says. -/
def Fits (opcode : Opcode) (operands : List UInt32) : Prop :=
  if opcode = .call then
    3 ≤ operands.length ∧ operands[2]? = some (UInt32.ofNat (operands.length - 3))
  else operands.length = opcode.operands

attribute [simp] Opcode.isCondition Opcode.isLoop Opcode.operands Fits

mutual

/-- An instruction has the blocks and the operands that its opcode asks for. -/
def WellFormed : Instr → Prop
  | .plain opcode operands =>
    opcode.isCondition = false ∧ opcode.isLoop = false ∧ Fits opcode operands
  | .branch opcode operands held otherwise =>
    opcode.isCondition = true ∧ opcode.operands = operands.length + 2 ∧ AllWellFormed held ∧
      AllWellFormed otherwise
  | .loop body => AllWellFormed body

/-- All instructions have the blocks and the operands that their opcodes ask for. -/
def AllWellFormed : List Instr → Prop
  | [] => True
  | i :: rest => WellFormed i ∧ AllWellFormed rest

end

end Instr

namespace Code

/-- All instructions of some code have the blocks and the operands that their opcodes ask for. -/
def WellFormed (c : Code) : Prop := Instr.AllWellFormed c

@[simp] theorem wellFormed_nil : WellFormed [] := trivial

@[simp] theorem wellFormed_cons (i : Instr) (c : Code) :
    WellFormed (i :: c) ↔ i.WellFormed ∧ WellFormed c := Iff.rfl

@[simp] theorem wellFormed_append (a b : Code) :
    WellFormed (a ++ b) ↔ WellFormed a ∧ WellFormed b := by
  induction a with
  | nil => simp
  | cons i a ih => simp [ih, and_assoc]

@[simp] theorem wellFormed_branch (opcode : Opcode) (operands : List UInt32)
    (held otherwise : Code) : (Instr.branch opcode operands held otherwise).WellFormed ↔
      opcode.isCondition = true ∧ opcode.operands = operands.length + 2 ∧ WellFormed held ∧
        WellFormed otherwise := Iff.rfl

@[simp] theorem wellFormed_loop (body : Code) :
    (Instr.loop body).WellFormed ↔ WellFormed body := Iff.rfl

@[simp] theorem wellFormed_op (opcode : Opcode) : (op opcode).WellFormed ↔
    opcode.isCondition = false ∧ opcode.isLoop = false ∧ Instr.Fits opcode [] := Iff.rfl

@[simp] theorem wellFormed_op1 (opcode : Opcode) (w : UInt32) : (op1 opcode w).WellFormed ↔
    opcode.isCondition = false ∧ opcode.isLoop = false ∧ Instr.Fits opcode [w] := Iff.rfl

/-- The number of words of some code. -/
def size (c : Code) : Nat := c.assemble.length

@[simp] theorem size_nil : size [] = 0 := rfl

@[simp] theorem size_cons (i : Instr) (c : Code) : size (i :: c) = i.assemble.length + size c := by
  simp [size, assemble, Instr.assembleAll]

@[simp] theorem size_append (a b : Code) : size (a ++ b) = size a + size b := by
  simp [size, assemble, Instr.assembleAll_append]

@[simp] theorem length_assemble_branch (opcode : Opcode) (operands : List UInt32)
    (held otherwise : Code) : (Instr.branch opcode operands held otherwise).assemble.length =
      operands.length + 3 + size held + size otherwise := by
  simp only [Instr.assemble, size, assemble, List.length_cons, List.length_append,
    List.length_nil]
  omega

@[simp] theorem length_assemble_loop (body : Code) :
    (Instr.loop body).assemble.length = 2 + size body := by
  simp only [Instr.assemble, size, assemble, List.length_cons]
  omega

@[simp] theorem length_assemble_plain (opcode : Opcode) (operands : List UInt32) :
    (Instr.plain opcode operands).assemble.length = operands.length + 1 := by
  simp [Instr.assemble]

@[simp] theorem length_assemble_op (opcode : Opcode) : (op opcode).assemble.length = 1 := rfl

@[simp] theorem length_assemble_op1 (opcode : Opcode) (w : UInt32) :
    (op1 opcode w).assemble.length = 2 := rfl

end Code

theorem Opcode.ofWord?_word (opcode : Opcode) : ofWord? opcode.word = some opcode := by
  cases opcode <;> rfl

/-! ## Words -/

/-- Words stand one after the other from an offset on. -/
def Stand (code : Array UInt32) (ip : Nat) (words : List UInt32) : Prop :=
  ∀ i < words.length, code[ip + i]? = words[i]?

namespace Stand

variable {code : Array UInt32} {ip : Nat} {a b : List UInt32} {w : UInt32}

theorem append : Stand code ip (a ++ b) ↔ Stand code ip a ∧ Stand code (ip + a.length) b := by
  constructor
  · intro h
    refine ⟨fun i hi => ?_, fun i hi => ?_⟩
    · rw [h i (by rw [List.length_append]; omega), List.getElem?_append_left hi]
    · rw [Nat.add_assoc, h (a.length + i) (by rw [List.length_append]; omega),
        List.getElem?_append_right (Nat.le_add_right _ _), Nat.add_sub_cancel_left]
  · rintro ⟨ha, hb⟩ i hi
    by_cases hlt : i < a.length
    · rw [ha i hlt, List.getElem?_append_left hlt]
    · have := hb (i - a.length) (by rw [List.length_append] at hi; omega)
      rwa [Nat.add_assoc, Nat.add_sub_cancel' (Nat.le_of_not_lt hlt),
        ← List.getElem?_append_right (Nat.le_of_not_lt hlt)] at this

theorem cons : Stand code ip (w :: b) ↔ code[ip]? = some w ∧ Stand code (ip + 1) b := by
  rw [← List.singleton_append, append]
  refine and_congr_left fun _ => ⟨fun h => h 0 (by simp), fun h i hi => ?_⟩
  obtain rfl : i = 0 := by simpa using hi
  exact h

/-- The operands of an instruction stand after its opcode. -/
theorem spells (h : Stand code (ip + 1) a) : Spells code ip a := by
  intro i hi
  have hword := h i hi
  rw [Nat.add_assoc, Nat.add_comm 1 i] at hword
  rw [Instr.arg, Nat.add_sub_cancel, Instruction.wordAt, Array.getD_eq_getD_getElem?, hword,
    List.getD_eq_getElem?_getD]

theorem wordAt (h : code[ip]? = some w) : Instruction.wordAt code ip = w.toNat := by
  rw [Instruction.wordAt, Array.getD_eq_getD_getElem?, h, Option.getD_some]

end Stand

/-! ## Placing code -/

section

variable {code : Array UInt32}

theorem Instr.Fits.width {opcode : Opcode} {operands : List UInt32} {ip : Nat}
    (h : Fits opcode operands) (hspells : Spells code ip operands)
    (hsize : operands.length < 2 ^ 32) :
    opcode.width (fun i => Instruction.wordAt code (ip + i)) = operands.length := by
  rw [Fits] at h
  rw [Opcode.width]
  split at h
  · next hcall =>
    have hcount := hspells 2 (by omega)
    rw [Instr.arg, List.getD_eq_getElem?_getD, h.2, Option.getD_some,
      UInt32.toNat_ofNat_of_lt' (by rw [UInt32.size]; omega)] at hcount
    rw [if_pos hcall, ← hcount, hcall]
    have := h.1
    simp only [Opcode.operands]
    omega
  · next hcall => rw [if_neg hcall, h, Nat.add_zero]

mutual

/-- An instruction before placed code is placed code. -/
theorem Instr.placed_of_stand : ∀ (i : Instr) {rest : Code} {ip stop : Nat}, i.WellFormed →
    Stand code ip i.assemble → i.assemble.length < 2 ^ 32 → ip + i.assemble.length ≤ stop →
    Placed code rest (ip + i.assemble.length) stop → Placed code (i :: rest) ip stop
  | .plain opcode operands, rest, ip, stop, hwf, hstand, hsize, hstop, hrest => by
    obtain ⟨hcondition, hloop, hfits⟩ := hwf
    obtain ⟨hword, hoperands⟩ := Stand.cons.mp hstand
    rw [Code.length_assemble_plain] at hsize hstop hrest
    refine .plain (by omega) (by rw [hword]; exact opcode.ofWord?_word) hcondition hloop
      (hfits.width hoperands.spells (by omega)) hoperands.spells ?_
    rwa [Nat.add_assoc, Nat.add_comm 1]
  | .branch opcode operands held otherwise, rest, ip, stop, hwf, hstand, hsize, hstop, hrest => by
    obtain ⟨hcondition, hwidth, hheld, hotherwise⟩ := hwf
    rw [Code.length_assemble_branch] at hsize hstop hrest
    simp only [Instr.assemble, Stand.cons, Stand.append, List.length_append, List.length_cons,
      List.length_nil] at hstand
    obtain ⟨hword, ⟨⟨hoperands, ht, hf, -⟩, hheldStand⟩, hotherwiseStand⟩ := hstand
    have hplacedHeld := Code.placed_of_stand held hheld hheldStand (by
      change Code.size held < _
      omega)
    have hplacedOtherwise := Code.placed_of_stand otherwise hotherwise hotherwiseStand (by
      change Code.size otherwise < _
      omega)
    refine .branch (t := Code.size held) (f := Code.size otherwise) (by omega)
      (by rw [hword]; exact opcode.ofWord?_word) hcondition hwidth hoperands.spells ?_ ?_ ?_ ?_ ?_
    · rw [← Nat.add_assoc, Nat.add_right_comm, Stand.wordAt ht]
      exact UInt32.toNat_ofNat_of_lt' (show Code.size held < _ by rw [UInt32.size]; omega)
    · rw [show ip + (operands.length + 2) = ip + 1 + operands.length + 1 by omega, Stand.wordAt hf]
      exact UInt32.toNat_ofNat_of_lt' (show Code.size otherwise < _ by rw [UInt32.size]; omega)
    · rw [show ip + (operands.length + 3) = ip + 1 + (operands.length + (0 + 1 + 1)) by omega]
      exact hplacedHeld
    · rw [show ip + (operands.length + 3) + Code.size held =
        ip + 1 + (operands.length + (0 + 1 + 1) + Code.size held) by omega]
      exact hplacedOtherwise
    · rwa [show ip + (operands.length + 3) + Code.size held + Code.size otherwise =
        ip + (operands.length + 3 + Code.size held + Code.size otherwise) by omega]
  | .loop body, rest, ip, stop, hwf, hstand, hsize, hstop, hrest => by
    rw [Code.length_assemble_loop] at hsize hstop hrest
    simp only [Instr.assemble, Stand.cons] at hstand
    obtain ⟨hword, hb, hbody⟩ := hstand
    have hplaced := Code.placed_of_stand body hwf hbody (by
      change Code.size body < _
      omega)
    refine .loop (b := Code.size body) (by omega) (by rw [hword]; exact Opcode.ofWord?_word _) ?_ hplaced
      (by rwa [Nat.add_assoc])
    rw [Stand.wordAt hb]
    exact UInt32.toNat_ofNat_of_lt' (show Code.size body < _ by rw [UInt32.size]; omega)

/-- Assembled code is placed where its words stand. -/
theorem Code.placed_of_stand : ∀ (c : Code) {ip : Nat}, Instr.AllWellFormed c →
    Stand code ip (Instr.assembleAll c) → (Instr.assembleAll c).length < 2 ^ 32 →
    Placed code c ip (ip + (Instr.assembleAll c).length)
  | [], ip, _, _, _ => .nil le_rfl
  | i :: rest, ip, hwf, hstand, hsize => by
    obtain ⟨hfirst, hothers⟩ := Stand.append.mp hstand
    rw [Instr.assembleAll, List.length_append] at hsize ⊢
    have hrest := Code.placed_of_stand rest hwf.2 hothers (by omega)
    rw [Nat.add_assoc] at hrest
    exact Instr.placed_of_stand i hwf.1 hfirst (by omega) (by omega) hrest

end

end

end PegMachine
