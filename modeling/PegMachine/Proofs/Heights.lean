import PegMachine.Proofs.Executors
import PegMachine.Proofs.TypedCode

/-!
# Heights of the stack

Typed code takes a stack of one height to a stack of another one, whichever way is taken through it.
So the words of typed code have a stack effect, which is the difference of the heights, and can be
unrolled into statements, which put the entries into the slots of their heights.
-/

namespace PegMachine

open Code

variable {P : Program} {c : Code} {n n' : Nat} {kinds kinds' kinds_held kinds_otherwise : Kinds}
  {opcode : Opcode} {operands : List UInt32}

/-! ## Effects -/

/-- The height of a stack as stack effects count it. -/
def Kinds.height (kinds : Kinds) : Int32 := .ofNat kinds.length

@[simp] theorem Kinds.height_cons (k : Kind) (kinds : Kinds) :
    Kinds.height (k :: kinds) = kinds.height + 1 := Int32.ofNat_add kinds.length 1

theorem Kinds.height_drop (kinds : Kinds) {m : Nat} (hm : m ≤ kinds.length) :
    Kinds.height (kinds.drop m) = kinds.height - .ofNat m := by
  have hlength : kinds.length = (kinds.drop m).length + m := by rw [List.length_drop]; omega
  rw [Kinds.height, Kinds.height, hlength, Int32.ofNat_add, Int32.add_sub_cancel]

theorem Kinds.Le.height_eq (h : kinds.Le kinds') : kinds.height = kinds'.height := by
  rw [Kinds.height, Kinds.height, h.length_eq]

theorem Instr.toInt32_getD (operands : List UInt32) (i : Nat) :
    (operands.getD i 0).toInt32 = .ofNat (arg operands (i + 1)) := by
  rw [arg, Nat.add_sub_cancel, ← UInt32.toInt32_ofNat', UInt32.ofNat_toNat]

namespace Opcode

theorem Takes.effect (h : opcode.Takes (Instr.arg operands) kinds kinds') :
    kinds.height + StackEffect.plain opcode operands = kinds'.height := by
  cases h with
  | popN enough =>
    change kinds.height + -(operands.getD 0 0).toInt32 = _
    rw [Kinds.height_drop _ enough, Instr.toInt32_getD, Int32.sub_eq_add_neg]
  | wrap enough _ =>
    change kinds.height + (1 - (operands.getD 0 0).toInt32) = _
    rw [Kinds.height_cons, Kinds.height_drop _ enough, Instr.toInt32_getD, Int32.sub_eq_add_neg,
      Int32.sub_eq_add_neg, Int32.add_assoc, Int32.add_comm 1]
  | call enough _ =>
    change kinds.height + (1 - (operands.getD 1 0).toInt32) = _
    rw [Kinds.height_cons, Kinds.height_drop _ enough, Instr.toInt32_getD, Int32.sub_eq_add_neg,
      Int32.sub_eq_add_neg, Int32.add_assoc, Int32.add_comm 1]
  | _ => simp [StackEffect.plain, Int32.add_assoc]

/-- Both blocks of a condition begin at the height in front of it. -/
theorem Splits.length_eq (h : opcode.Splits kinds kinds_held kinds_otherwise) :
    kinds_held.length = kinds.length ∧ kinds_otherwise.length = kinds.length := by
  cases h <;> simp

theorem Splits.height_eq (h : opcode.Splits kinds kinds_held kinds_otherwise) :
    kinds_held.height = kinds.height ∧ kinds_otherwise.height = kinds.height := by
  rw [Kinds.height, Kinds.height, Kinds.height, h.length_eq.1, h.length_eq.2]
  exact ⟨rfl, rfl⟩

end Opcode

/-- Typed code moves the top of the stack as its kinds say. -/
theorem Code.Typed.height_add_effect (h : c.Typed P n kinds n' kinds') :
    kinds.height + c.effect = kinds'.height := by
  induction h with
  | nil => exact Int32.add_zero _
  | forget hle _ ih => rw [hle.height_eq, ih]
  | plain _ htakes _ _ _ ih =>
    change _ + (_ + _) = _
    rw [← Int32.add_assoc, Instr.effect, htakes.effect]
    exact ih
  | branch hsplits _ _ _ _ _ ih_held _ ih =>
    change _ + (_ + _) = _
    rw [← hsplits.height_eq.1, ← Int32.add_assoc, Instr.effect]
    exact ih_held ▸ ih
  | loop _ _ _ ih =>
    change _ + (0 + _) = _
    rw [Int32.zero_add, Kinds.height_cons] at *
    exact ih

/-- The blocks of a condition move the top of the stack equally far. -/
theorem Opcode.Splits.effect_eq {held otherwise : Code} {m m' : Nat} {kinds₁ : Kinds}
    (h : opcode.Splits kinds kinds_held kinds_otherwise)
    (hheld : held.Typed P n kinds_held n' kinds₁)
    (hotherwise : otherwise.Typed P m kinds_otherwise m' kinds₁) :
    held.effect = otherwise.effect := by
  have hheight := hheld.height_add_effect
  rw [h.height_eq.1, ← hotherwise.height_add_effect, h.height_eq.2] at hheight
  exact (Int32.add_right_inj _).mp hheight

/-- The body of a loop does not move the top of the stack. -/
theorem Code.Typed.effect_body {body : Code} {k k' : Kind}
    (h : body.Typed P n (k :: kinds) n' (k' :: kinds)) : body.effect = 0 := by
  have hheight := h.height_add_effect
  rw [Kinds.height_cons, Kinds.height_cons] at hheight
  exact (Int32.add_right_inj _).mp (hheight.trans (Int32.add_zero _).symm)

/-! ## Words -/

theorem Code.assemble_plain_append (opcode : Opcode) (operands : List UInt32) (rest : Code)
    (ws : List UInt32) : assemble (.plain opcode operands :: rest) ++ ws =
      opcode.word :: (operands ++ (rest.assemble ++ ws)) := by
  simp [assemble, Instr.assembleAll, Instr.assemble]

theorem Code.assemble_branch_append (opcode : Opcode) (operands : List UInt32)
    (held otherwise rest : Code) (ws : List UInt32) :
    assemble (.branch opcode operands held otherwise :: rest) ++ ws = opcode.word :: ((operands ++
      [UInt32.ofNat held.assemble.length, UInt32.ofNat otherwise.assemble.length]) ++
        (held.assemble ++ (otherwise.assemble ++ (rest.assemble ++ ws)))) := by
  simp [assemble, Instr.assembleAll, Instr.assemble]

theorem Code.assemble_loop_append (body rest : Code) (ws : List UInt32) :
    assemble (.loop body :: rest) ++ ws = Opcode.whileNotError.word ::
      UInt32.ofNat body.assemble.length :: (body.assemble ++ (rest.assemble ++ ws)) := by
  simp [assemble, Instr.assembleAll, Instr.assemble]

/-- A condition has the lengths of its blocks as its last operands. -/
theorem Instr.fits_branch (hcondition : opcode.isCondition = true)
    (hwidth : opcode.operands = operands.length + 2) (t f : UInt32) :
    Instr.Fits opcode (operands ++ [t, f]) := by
  rw [Instr.Fits, if_neg (by rintro rfl; cases hcondition), hwidth, List.length_append]
  rfl

/-- An instruction has the operands that its opcode, or its third operand, asks for. -/
theorem Instr.Fits.operandCount (h : Instr.Fits opcode operands) (hsize : operands.length < 2 ^ 32)
    (ws : List UInt32) :
    Instruction.operandCount? opcode (operands ++ ws) = some operands.length := by
  rw [Instr.Fits] at h
  rw [Instruction.operandCount?]
  split at h
  · next hcall =>
    obtain ⟨hle, hcount⟩ := h
    have hlt : 2 < operands.length := by omega
    rw [if_pos hcall, List.getElem?_append_left hlt, hcount, Option.map_some,
      UInt32.toNat_ofNat_of_lt' (by rw [UInt32.size]; omega), hcall]
    simp only [Opcode.operands, Option.some.injEq]
    omega
  · next hcall => rw [if_neg hcall, h]

namespace StackEffect

variable {offset : Nat} {e : Int32} {ws : List UInt32}

theorem effectFrom_plain (hfits : Instr.Fits opcode operands) (hsize : operands.length < 2 ^ 32)
    (hcondition : opcode.isCondition = false) (hloop : opcode.isLoop = false) :
    effectFrom offset e (opcode.word :: (operands ++ ws)) =
      effectFrom (offset + 1 + operands.length) (e + plain opcode operands) ws := by
  rw [effectFrom, Opcode.ofWord?_word]
  dsimp only
  rw [hfits.operandCount hsize]
  dsimp only
  rw [if_neg (by rw [List.length_append]; omega), hcondition, hloop]
  simp

section

variable {a b : List UInt32} {d : Int32}

/-- The words of a condition and its blocks, which move the stack equally far. -/
theorem effectFrom_branch (hcondition : opcode.isCondition = true)
    (hwidth : opcode.operands = operands.length + 2) (ha : a.length < 2 ^ 32)
    (hb : b.length < 2 ^ 32) (heffect_a : effectFrom 0 0 a = .ok d)
    (heffect_b : effectFrom 0 0 b = .ok d) :
    effectFrom offset e (opcode.word :: ((operands ++
        [UInt32.ofNat a.length, UInt32.ofNat b.length]) ++ (a ++ (b ++ ws)))) =
      effectFrom (offset + (operands.length + 3) + a.length + b.length) (e + d) ws := by
  generalize hoperands : operands ++ [UInt32.ofNat a.length, UInt32.ofNat b.length] = operands'
  have hlength : operands'.length = operands.length + 2 := by
    rw [← hoperands, List.length_append]
    rfl
  have ht : (operands'.getD (operands.length + 2 - 2) 0).toNat = a.length := by
    simp [← hoperands, List.getD_eq_getElem?_getD]
    omega
  have hf : (operands'.getD (operands.length + 2 - 1) 0).toNat = b.length := by
    simp [← hoperands, List.getD_eq_getElem?_getD]
    omega
  have hcount : Instruction.operandCount? opcode (operands' ++ (a ++ (b ++ ws))) =
      some (operands.length + 2) := by
    rw [Instruction.operandCount?, if_neg (by rintro rfl; cases hcondition), hwidth]
  have hafter : (a ++ (b ++ ws)).drop (a.length + b.length) = ws := by
    rw [← List.append_assoc]
    exact List.drop_left' (List.length_append ..)
  rw [effectFrom, Opcode.ofWord?_word]
  dsimp only
  rw [hcount]
  dsimp only
  rw [if_neg (by rw [List.length_append, hlength]; omega), hcondition, if_pos rfl,
    List.take_left' hlength, List.drop_left' hlength, ht, hf,
    if_neg (by simp only [List.length_append]; omega), List.take_left, List.drop_left,
    List.take_left, hafter, heffect_a, heffect_b]
  simp only [bind, Except.bind, ne_eq, not_true_eq_false, if_false]
  rw [show offset + 1 + (operands.length + 2) = offset + (operands.length + 3) by omega]

/-- The words of a loop, whose body does not move the stack. -/
theorem effectFrom_loop (ha : a.length < 2 ^ 32) (heffect_a : effectFrom 0 0 a = .ok 0) :
    effectFrom offset e (Opcode.whileNotError.word :: UInt32.ofNat a.length :: (a ++ ws)) =
      effectFrom (offset + 2 + a.length) e ws := by
  have hb : (UInt32.ofNat a.length).toNat = a.length :=
    UInt32.toNat_ofNat_of_lt' (by rwa [UInt32.size])
  rw [effectFrom, Opcode.ofWord?_word]
  simp only [Instruction.operandCount?, reduceCtorEq, if_false, Opcode.operands,
    List.length_cons, List.take_succ_cons, List.take_zero, List.drop_succ_cons, List.drop_zero,
    Opcode.isCondition, Opcode.isLoop, Bool.false_eq_true, if_true, Nat.sub_self,
    List.getD_cons_zero, hb]
  rw [if_neg (by omega), if_neg (by rw [List.length_append]; omega), List.take_left, List.drop_left,
    heffect_a]
  simp only [bind, Except.bind, ne_eq, not_true_eq_false, if_false]

/-- What is known of some words with others behind them is known of the words alone. -/
theorem effectFrom_of_append {k : Nat} (h : ∀ ws, effectFrom 0 0 (a ++ ws) = effectFrom k (0 + d) ws) :
    effectFrom 0 0 a = .ok d := by
  have hnil := h []
  rwa [List.append_nil, effectFrom, Int32.zero_add] at hnil

end

end StackEffect

open StackEffect in
/-- The words of typed code have the effect of the code. -/
theorem Code.Typed.effectFrom_assemble (h : c.Typed P n kinds n' kinds') :
    ∀ {offset : Nat} {e : Int32} {ws : List UInt32}, c.size < 2 ^ 32 →
      effectFrom offset e (c.assemble ++ ws) = effectFrom (offset + c.size) (e + c.effect) ws := by
  induction h with
  | nil =>
    intro offset e ws _
    rw [Code.size_nil, Nat.add_zero]
    exact congrArg (effectFrom offset · ws) (Int32.add_zero e).symm
  | forget _ _ ih => exact ih
  | @plain opcode operands rest _ _ _ _ _ _ hfits htakes _ _ _ ih =>
    intro offset e ws hsize
    rw [size_cons, length_assemble_plain] at hsize
    rw [assemble_plain_append, effectFrom_plain hfits (by omega) htakes.plain.1 htakes.plain.2,
      ih (by omega)]
    change effectFrom (offset + 1 + operands.length + rest.size)
      (e + StackEffect.plain opcode operands + rest.effect) ws =
        effectFrom _ (e + (StackEffect.plain opcode operands + rest.effect)) ws
    rw [Int32.add_assoc, size_cons, length_assemble_plain,
      show offset + 1 + operands.length + size rest = offset + (operands.length + 1 + size rest) by
        omega]
  | @branch opcode operands held otherwise rest _ _ _ _ _ _ _ hsplits hwidth _ hheld hotherwise _
      ih_held ih_otherwise ih =>
    intro offset e ws hsize
    rw [size_cons, length_assemble_branch] at hsize
    have hheld_effect : effectFrom 0 0 held.assemble = .ok held.effect :=
      effectFrom_of_append fun ws => ih_held (by omega)
    have hotherwise_effect : effectFrom 0 0 otherwise.assemble = .ok held.effect := by
      rw [hsplits.effect_eq hheld hotherwise]
      exact effectFrom_of_append fun ws => ih_otherwise (by omega)
    rw [assemble_branch_append, effectFrom_branch hsplits.isCondition hwidth
      (show held.size < 2 ^ 32 by omega) (show otherwise.size < 2 ^ 32 by omega) hheld_effect
      hotherwise_effect, ih (by omega)]
    change effectFrom (offset + (operands.length + 3) + held.size + otherwise.size + rest.size)
      (e + held.effect + rest.effect) ws = effectFrom _ (e + (held.effect + rest.effect)) ws
    rw [Int32.add_assoc, size_cons, length_assemble_branch,
      show offset + (operands.length + 3) + held.size + otherwise.size + rest.size =
        offset + (operands.length + 3 + held.size + otherwise.size + rest.size) by omega]
  | @loop body rest _ _ _ _ hbody _ ih_body ih =>
    intro offset e ws hsize
    rw [size_cons, length_assemble_loop] at hsize
    have hbody_effect : effectFrom 0 0 body.assemble = .ok body.effect :=
      effectFrom_of_append fun ws => ih_body (by omega)
    rw [hbody.effect_body] at hbody_effect
    rw [assemble_loop_append, effectFrom_loop (show body.size < 2 ^ 32 by omega) hbody_effect,
      ih (by omega)]
    change effectFrom (offset + 2 + body.size + rest.size) (e + rest.effect) ws =
      effectFrom _ (e + (0 + rest.effect)) ws
    rw [Int32.zero_add, size_cons, length_assemble_loop,
      show offset + 2 + body.size + rest.size = offset + (2 + body.size + rest.size) by omega]

theorem Code.Typed.stackEffect_assemble (h : c.Typed P n kinds n' kinds') (hsize : c.size < 2 ^ 32) :
    stackEffect c.assemble = .ok c.effect :=
  StackEffect.effectFrom_of_append fun _ => h.effectFrom_assemble hsize

/-! ## Unrolling -/

variable {code : Array UInt32} {ip stop : Nat}

theorem Stand.le_size {w : UInt32} {words : List UInt32} (h : Stand code ip (w :: words)) :
    ip + (words.length + 1) ≤ code.size := by
  have hlast := h words.length (by rw [List.length_cons]; omega)
  have hsome : code[ip + words.length]? ≠ none := by
    rw [hlast, List.getElem?_eq_getElem (by rw [List.length_cons]; omega)]
    nofun
  rw [ne_eq, Array.getElem?_eq_none_iff] at hsome
  omega

/-- The words of an instruction without blocks, and of the code behind it. -/
theorem Stand.plain {rest : Code} (h : Stand code ip (assemble (.plain opcode operands :: rest))) :
    Stand code ip (opcode.word :: operands) ∧
      Stand code (ip + (operands.length + 1)) rest.assemble := by
  obtain ⟨hinstr, hrest⟩ := Stand.append.mp h
  rw [length_assemble_plain] at hrest
  exact ⟨hinstr, hrest⟩

/-- The words of a condition, of its blocks, and of the code behind it. -/
theorem Stand.branch {held otherwise rest : Code}
    (h : Stand code ip (assemble (.branch opcode operands held otherwise :: rest))) :
    Stand code ip (opcode.word :: (operands ++
        [UInt32.ofNat held.size, UInt32.ofNat otherwise.size])) ∧
      Stand code (ip + (operands.length + 3)) held.assemble ∧
      Stand code (ip + (operands.length + 3) + held.size) otherwise.assemble ∧
      Stand code (ip + (operands.length + 3) + held.size + otherwise.size) rest.assemble := by
  obtain ⟨hinstr, hrest⟩ := Stand.append.mp h
  rw [length_assemble_branch, ← Nat.add_assoc, ← Nat.add_assoc] at hrest
  simp only [Instr.assemble, ← List.cons_append] at hinstr
  obtain ⟨hinner, hotherwise⟩ := Stand.append.mp hinstr
  obtain ⟨hwords, hheld⟩ := Stand.append.mp hinner
  simp only [List.length_cons, List.length_append, List.length_nil] at hheld hotherwise
  refine ⟨hwords, hheld, ?_, hrest⟩
  rw [Nat.add_assoc]
  exact hotherwise

/-- The operands of a condition, and the lengths of its blocks after them. -/
theorem Stand.lengths {t f : Nat} (ht : t < 2 ^ 32) (hf : f < 2 ^ 32)
    (h : Stand code ip (opcode.word :: (operands ++ [UInt32.ofNat t, UInt32.ofNat f]))) :
    Spells code ip operands ∧ Instruction.wordAt code (ip + (operands.length + 1)) = t ∧
      Instruction.wordAt code (ip + (operands.length + 2)) = f := by
  obtain ⟨-, hwords⟩ := Stand.cons.mp h
  obtain ⟨hoperands, hlengths⟩ := Stand.append.mp hwords
  obtain ⟨ht', hrest⟩ := Stand.cons.mp hlengths
  obtain ⟨hf', -⟩ := Stand.cons.mp hrest
  refine ⟨hoperands.spells, ?_, ?_⟩
  · rw [show ip + (operands.length + 1) = ip + 1 + operands.length by omega, Stand.wordAt ht',
      UInt32.toNat_ofNat_of_lt' ht]
  · rw [show ip + (operands.length + 2) = ip + 1 + operands.length + 1 by omega, Stand.wordAt hf',
      UInt32.toNat_ofNat_of_lt' hf]

/-- The words of a loop, of its body, and of the code behind it. -/
theorem Stand.loop {body rest : Code} (h : Stand code ip (assemble (.loop body :: rest))) :
    Stand code ip [Opcode.whileNotError.word, UInt32.ofNat body.size] ∧
      Stand code (ip + 2) body.assemble ∧ Stand code (ip + 2 + body.size) rest.assemble := by
  obtain ⟨hinstr, hrest⟩ := Stand.append.mp h
  rw [length_assemble_loop, ← Nat.add_assoc] at hrest
  obtain ⟨hword, hinner⟩ := Stand.cons.mp hinstr
  obtain ⟨hlength, hbody⟩ := Stand.cons.mp hinner
  exact ⟨Stand.cons.mpr ⟨hword, Stand.cons.mpr ⟨hlength, nofun⟩⟩, hbody, hrest⟩

/-- A whole instruction stands where its words are. -/
theorem Instr.Fits.length?_eq (h : Instr.Fits opcode operands) (hsize : operands.length < 2 ^ 32)
    (hstand : Stand code ip (opcode.word :: operands)) :
    Instruction.length? code ip = some (operands.length + 1) := by
  have hend := hstand.le_size
  obtain ⟨hword, hoperands⟩ := Stand.cons.mp hstand
  rw [Instr.Fits] at h
  rw [Instruction.length?, hword, Option.bind_some, Opcode.ofWord?_word]
  dsimp only
  rw [Instruction.parameterCount?]
  split at h
  · next hcall =>
    obtain ⟨hle, hcount⟩ := h
    have hthird : code[ip + 3]? = some (UInt32.ofNat (operands.length - 3)) := by
      rw [← hcount, ← hoperands 2 (by omega)]
    rw [if_pos hcall, hthird, Option.map_some,
      UInt32.toNat_ofNat_of_lt' (by rw [UInt32.size]; omega), hcall]
    have hsum : 1 + Opcode.call.operands + (operands.length - 3) = operands.length + 1 := by
      rw [Opcode.operands]
      omega
    dsimp only
    rw [hsum, if_pos (by omega)]
  · next hcall =>
    rw [if_neg hcall]
    dsimp only
    rw [← h, Nat.add_zero, Nat.add_comm 1, if_pos hend]

namespace Routine

variable {name : String} {height after length peak : Nat} {stmts : List Stmt} {rest : Unrolled}

theorem unrollBlock_done (h : stop ≤ ip) :
    unrollBlock code name ip stop height peak = .ok ⟨[], height, peak⟩ := by
  rw [unrollBlock, dif_neg (Nat.not_lt.mpr h)]

theorem unrollBlock_plain (hlt : ip < stop) (hop : Opcode.ofWord? (code.getD ip 0) = some opcode)
    (hlength : Instruction.length? code ip = some length) (hcondition : opcode.isCondition = false)
    (hloop : opcode.isLoop = false)
    (hplain : plain? opcode (fun i => Instruction.wordAt code (ip + i)) height = some (stmts, after))
    (hrest : unrollBlock code name (ip + length) stop after (max peak after) = .ok rest) :
    unrollBlock code name ip stop height peak = .ok { rest with body := stmts ++ rest.body } := by
  rw [unrollBlock, dif_pos hlt]
  split
  · next opcode' length' hop' hlength' =>
    cases hop.symm.trans hop'
    cases hlength.symm.trans hlength'
    simp only [hcondition, hloop, Bool.false_eq_true, if_false]
    rw [hplain]
    dsimp only
    rw [hrest]
    rfl
  · next hnone => exact absurd hlength (hnone _ _ hop)

theorem unrollBlock_branch {t f : Nat} {cond : Cond} {held otherwise : Unrolled} (hlt : ip < stop)
    (hop : Opcode.ofWord? (code.getD ip 0) = some opcode)
    (hlength : Instruction.length? code ip = some (length + 2))
    (hcondition : opcode.isCondition = true)
    (ht : Instruction.wordAt code (ip + length) = t)
    (hf : Instruction.wordAt code (ip + (length + 1)) = f)
    (hcond : cond? opcode (fun i => Instruction.wordAt code (ip + i)) height = some cond)
    (hend : ip + (length + 2) + t + f ≤ stop)
    (hheld : unrollBlock code name (ip + (length + 2)) (ip + (length + 2) + t) height peak =
      .ok held)
    (hotherwise : unrollBlock code name (ip + (length + 2) + t) (ip + (length + 2) + t + f) height
      held.peak = .ok otherwise)
    (hsame : held.height = otherwise.height)
    (hrest : unrollBlock code name (ip + (length + 2) + t + f) stop held.height otherwise.peak =
      .ok rest) :
    unrollBlock code name ip stop height peak =
      .ok { rest with body := .branch cond held.body otherwise.body :: rest.body } := by
  rw [unrollBlock, dif_pos hlt]
  split
  · next opcode' length' hop' hlength' =>
    cases hop.symm.trans hop'
    cases hlength.symm.trans hlength'
    simp only [hcondition, if_true]
    rw [hcond]
    dsimp only
    rw [Nat.add_sub_cancel, show length + 2 - 1 = length + 1 by omega, ht, hf, dif_pos hend, hheld]
    simp only [bind, Except.bind]
    rw [hotherwise]
    dsimp only
    rw [if_neg (not_not_intro hsame), hrest]
    rfl
  · next hnone => exact absurd hlength (hnone _ _ hop)

theorem unrollBlock_loop {b : Nat} {cond : Cond} {body : Unrolled} (hlt : ip < stop)
    (hop : Opcode.ofWord? (code.getD ip 0) = some .whileNotError)
    (hlength : Instruction.length? code ip = some 2)
    (hb : Instruction.wordAt code (ip + 1) = b)
    (hcond : cond? .whileNotError (fun i => Instruction.wordAt code (ip + i)) height = some cond)
    (hend : ip + 2 + b ≤ stop)
    (hbody : unrollBlock code name (ip + 2) (ip + 2 + b) height peak = .ok body)
    (hsame : body.height = height)
    (hrest : unrollBlock code name (ip + 2 + b) stop height body.peak = .ok rest) :
    unrollBlock code name ip stop height peak =
      .ok { rest with body := .loop cond body.body :: rest.body } := by
  rw [unrollBlock, dif_pos hlt]
  split
  · next opcode' length' hop' hlength' =>
    cases hop.symm.trans hop'
    cases hlength.symm.trans hlength'
    simp only [Opcode.isCondition, Opcode.isLoop, Bool.false_eq_true, if_false, if_true]
    rw [hcond]
    dsimp only
    rw [hb, dif_pos hend, hbody]
    simp only [bind, Except.bind]
    rw [if_neg (not_not_intro hsame), hrest]
    rfl
  · next hnone => exact absurd hlength (hnone _ _ hop)

/-- Entries that are there are in slots. -/
theorem exists_slotsBelow {offsets : List Nat} (h : ∀ offset ∈ offsets, offset < height) :
    ∃ is, offsets.mapM (slotBelow? height) = some is := by
  induction offsets with
  | nil => exact ⟨[], rfl⟩
  | cons offset offsets ih =>
    obtain ⟨hfirst, hothers⟩ := List.forall_mem_cons.mp h
    obtain ⟨is, his⟩ := ih hothers
    refine ⟨(height - 1 - offset) :: is, ?_⟩
    rw [List.mapM_cons, slotBelow?, if_pos hfirst, his]
    rfl

/-- An instruction that finds what it reads becomes statements. -/
theorem exists_plain {arg : Nat → Nat} (h : opcode.Takes arg kinds kinds') :
    ∃ stmts, plain? opcode arg kinds.length = some (stmts, kinds'.length) := by
  cases h with
  | popN enough => simp [plain?, dropped?, enough]
  | wrap enough _ => simp [plain?, pushed, dropped?, enough]
  | loadSavedPos saved =>
    have hlt : arg 1 < kinds.length := (List.getElem?_eq_some_iff.mp saved).choose
    simp [plain?, slotBelow?, hlt]
  | call enough values =>
    have hargs : ∀ offset ∈ (List.range (arg 3)).map fun i => arg (4 + i),
        offset < kinds.length := by
      intro offset hoffset
      obtain ⟨i, hi, rfl⟩ := List.mem_map.mp hoffset
      exact (List.getElem?_eq_some_iff.mp (values i (List.mem_range.mp hi))).choose
    obtain ⟨is, his⟩ := exists_slotsBelow hargs
    simp [plain?, pushed, dropped?, enough, his]
  | _ => simp [plain?, pushed, dropped?, slotBelow?]

/-- A condition that finds what it reads becomes a condition on slots. -/
theorem exists_cond {arg : Nat → Nat} (h : opcode.Splits kinds kinds_held kinds_otherwise) :
    ∃ cond, cond? opcode arg kinds.length = some cond := by
  cases h <;> simp [cond?, slotBelow?]

theorem ofWord?_getD (h : code[ip]? = some opcode.word) :
    Opcode.ofWord? (code.getD ip 0) = some opcode := by
  rw [Array.getD_eq_getD_getElem?, h, Option.getD_some, Opcode.ofWord?_word]

/-- A block unrolls to its own statements if it unrolls to them in front of others. -/
theorem unrollBlock_of_append {peak' : Nat}
    (h : ∀ rest, unrollBlock code name stop stop after peak' = .ok rest →
      unrollBlock code name ip stop height peak = .ok { rest with body := stmts ++ rest.body }) :
    unrollBlock code name ip stop height peak = .ok ⟨stmts, after, peak'⟩ := by
  have hnil := h _ (unrollBlock_done le_rfl)
  rwa [List.append_nil] at hnil

/-- Typed code unrolls to statements in front of those of the code behind it. -/
theorem exists_unrollBlock (name : String) (h : c.Typed P n kinds n' kinds') :
    ∀ {ip stop : Nat} (peak : Nat), Stand code ip c.assemble → c.size < 2 ^ 32 →
      ip + c.size ≤ stop → ∃ stmts peak', ∀ rest,
        unrollBlock code name (ip + c.size) stop kinds'.length peak' = .ok rest →
        unrollBlock code name ip stop kinds.length peak =
          .ok { rest with body := stmts ++ rest.body } := by
  induction h with
  | nil => exact fun peak _ _ _ => ⟨[], peak, fun rest hrest => hrest⟩
  | forget hle _ ih => exact hle.length_eq ▸ ih
  | @plain opcode operands c _ _ _ kinds kinds₁ _ hfits htakes _ _ _ ih =>
    intro ip stop peak hstand hsize hstop
    obtain ⟨hinstr, hbehind⟩ := hstand.plain
    obtain ⟨hword, hoperands⟩ := Stand.cons.mp hinstr
    rw [size_cons, length_assemble_plain] at hsize hstop ⊢
    have hlength := hfits.length?_eq (by omega) hinstr
    obtain ⟨stmts, hstmts⟩ := exists_plain htakes
    have hplain : plain? opcode (fun i => Instruction.wordAt code (ip + i)) kinds.length =
        some (stmts, kinds₁.length) := by
      rw [← hstmts]
      have hwidth := hfits.width hoperands.spells (by omega)
      exact plain?_congr (fun i hi => (hoperands.spells i (hwidth ▸ hi)).symm) _
    obtain ⟨others, peak', hrest⟩ := ih (max peak kinds₁.length) hbehind (by omega)
      (show ip + (operands.length + 1) + c.size ≤ stop by omega)
    refine ⟨stmts ++ others, peak', fun rest h => ?_⟩
    rw [← Nat.add_assoc] at h
    rw [unrollBlock_plain (by omega) (ofWord?_getD hword) hlength htakes.plain.1 htakes.plain.2
      hplain (hrest rest h), List.append_assoc]
  | @branch opcode operands held otherwise c _ _ kinds _ _ kinds₁ _ hsplits hwidth _ _ _ _ ih_held
      ih_otherwise ih =>
    intro ip stop peak hstand hsize hstop
    rw [size_cons, length_assemble_branch] at hsize hstop ⊢
    obtain ⟨hinstr, hheld, hotherwise, hbehind⟩ := hstand.branch
    obtain ⟨hword, hoperands⟩ := Stand.cons.mp hinstr
    have hwhole : Instruction.length? code ip = some (operands.length + 1 + 2) := by
      rw [(Instr.fits_branch hsplits.isCondition hwidth _ _).length?_eq (by
        rw [List.length_append]
        simp only [List.length_cons, List.length_nil]
        omega) hinstr, List.length_append]
      rfl
    obtain ⟨hspells, ht, hf⟩ := hinstr.lengths (by omega) (by omega)
    obtain ⟨cond, hcond⟩ : ∃ cond, cond? opcode (fun i => Instruction.wordAt code (ip + i))
        kinds.length = some cond := exists_cond hsplits
    -- The blocks are unrolled up to their ends, the code behind them up to the end of it all.
    obtain ⟨then_, peak₁, hthen⟩ := ih_held peak hheld (by omega) le_rfl
    obtain ⟨else_, peak₂, helse⟩ := ih_otherwise peak₁ hotherwise (by omega) le_rfl
    obtain ⟨others, peak₃, hrest⟩ := ih peak₂ hbehind (by omega)
      (show ip + (operands.length + 3) + held.size + otherwise.size + c.size ≤ stop by omega)
    rw [hsplits.length_eq.1] at hthen
    rw [hsplits.length_eq.2] at helse
    refine ⟨.branch cond then_ else_ :: others, peak₃, fun rest h => ?_⟩
    have hbehind := hrest rest (by simpa only [Nat.add_assoc] using h)
    exact unrollBlock_branch (by omega) (ofWord?_getD hword) hwhole hsplits.isCondition ht hf hcond
      (by omega) (unrollBlock_of_append hthen) (unrollBlock_of_append helse) rfl hbehind
  | @loop body c _ _ kinds _ hbody _ ih_body ih =>
    intro ip stop peak hstand hsize hstop
    rw [size_cons, length_assemble_loop] at hsize hstop ⊢
    obtain ⟨hinstr, hinner, hbehind⟩ := hstand.loop
    obtain ⟨hword, hlength⟩ := Stand.cons.mp hinstr
    have hb : Instruction.wordAt code (ip + 1) = body.size := by
      rw [Stand.wordAt (Stand.cons.mp hlength).1]
      exact UInt32.toNat_ofNat_of_lt' (by rw [UInt32.size]; omega)
    have hwhole : Instruction.length? code ip = some 2 :=
      Instr.Fits.length?_eq (by simp) (by simp) hinstr
    obtain ⟨inner, peak₁, hinner⟩ := ih_body peak hinner (by omega) le_rfl
    obtain ⟨others, peak₂, hrest⟩ := ih peak₁ hbehind (by omega)
      (show ip + 2 + body.size + c.size ≤ stop by omega)
    refine ⟨.loop (.notFailed kinds.length) inner :: others, peak₂, fun rest h => ?_⟩
    have hbehind := hrest rest (by simpa only [Nat.add_assoc] using h)
    exact unrollBlock_loop (by omega) (ofWord?_getD hword) hwhole hb
      (by simp [cond?, slotBelow?]) (by omega) (unrollBlock_of_append hinner) rfl hbehind

/-- The words of code that makes one result out of nothing can be unrolled. -/
theorem exists_unroll {k : Kind} (h : c.Typed P n [] n' [k]) (hsize : c.size < 2 ^ 32) (index : Nat)
    (name : String) : ∃ r, unroll index name c.assemble.toArray = .ok r := by
  have hstand : Stand c.assemble.toArray 0 c.assemble := fun i _ => by simp
  have hstop : 0 + c.size ≤ c.assemble.toArray.size := by simp [Code.size]
  obtain ⟨stmts, peak, hunrolls⟩ := exists_unrollBlock name h 0 hstand hsize hstop
  have hall : unrollBlock c.assemble.toArray name 0 c.assemble.toArray.size 0 0 =
      .ok ⟨stmts ++ [], 1, peak⟩ := hunrolls _ (unrollBlock_done (by simp [Code.size]))
  rw [unroll, hall]
  exact ⟨_, rfl⟩

end Routine

end PegMachine
