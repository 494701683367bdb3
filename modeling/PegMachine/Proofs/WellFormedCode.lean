import PegMachine.Proofs.Heights
import PegMachine.Proofs.Listings
import PegMachine.Proofs.Safety

/-!
# Machine code is well formed

Four readers take machine code apart: the listing, the stack effect, the unrolling into statements
and the interpreter. The code that is generated for a grammar is well formed for all of them. Its
words are the instructions of its listing one after the other; blocks begin and end between
instructions and stay inside of the block around them; both blocks of a condition move the stack
equally far and the body of a loop does not move it; every region without reports is closed in the
block in which it was opened; and operands refer to what the instructions need.
-/

namespace PegMachine

open Code

variable {P : Program} {c : Code} {n n' : Nat} {kinds kinds' : Kinds} {opcode : Opcode}
  {operands : List UInt32}

/-! ## Listings -/

namespace Instruction

/-- A listing has all the words, and every instruction is at its offset. -/
theorem listFrom_eq_ok {offset : Nat} {words : List UInt32} {is : List Instruction}
    (h : listFrom offset words = .ok is) :
    is.flatMap Instruction.words = words ∧ ∀ before i after, is = before ++ i :: after →
      i.offset = offset + (before.flatMap Instruction.words).length := by
  obtain ⟨hrow, hwords⟩ := listFrom_eq_ok_iff.mp h
  refine ⟨hwords, fun before i after hsplit => ?_⟩
  subst hsplit
  exact hrow.inLine.offset_eq

theorem listFrom_cons {offset : Nat} {ws : List UInt32} {is : List Instruction}
    (hfits : Instr.Fits opcode operands) (hsize : operands.length < 2 ^ 32)
    (h : listFrom (offset + (operands.length + 1)) ws = .ok is) :
    listFrom offset (opcode.word :: (operands ++ ws)) = .ok (⟨offset, opcode, operands⟩ :: is) := by
  rw [listFrom, Opcode.ofWord?_word]
  dsimp only
  rw [hfits.operandCount hsize]
  dsimp only
  rw [if_pos (by rw [List.length_append]; omega), List.drop_left, List.take_left, Nat.add_assoc,
    Nat.add_comm 1, h]
  rfl

end Instruction

namespace Instr

mutual

/-- The listing of an instruction that stands at an offset. -/
def listedAt : Instr → Nat → List Instruction
  | .plain opcode operands, ip => [⟨ip, opcode, operands⟩]
  | .branch opcode operands held otherwise, ip =>
    let t := (assembleAll held).length
    let f := (assembleAll otherwise).length
    ⟨ip, opcode, operands ++ [UInt32.ofNat t, UInt32.ofNat f]⟩ ::
      (listedAllAt held (ip + (operands.length + 3)) ++
        listedAllAt otherwise (ip + (operands.length + 3) + t))
  | .loop body, ip =>
    ⟨ip, .whileNotError, [UInt32.ofNat (assembleAll body).length]⟩ :: listedAllAt body (ip + 2)

/-- The listing of some code that stands at an offset. -/
def listedAllAt : List Instr → Nat → List Instruction
  | [], _ => []
  | i :: rest, ip => i.listedAt ip ++ listedAllAt rest (ip + i.assemble.length)

end

end Instr

namespace Code

/-- The listing of some code that stands at an offset. -/
def listedAt (c : Code) (ip : Nat) : List Instruction := Instr.listedAllAt c ip

theorem listedAt_plain (rest : Code) (ip : Nat) :
    listedAt (.plain opcode operands :: rest) ip =
      ⟨ip, opcode, operands⟩ :: rest.listedAt (ip + (operands.length + 1)) := by
  change _ :: rest.listedAt _ = _
  rw [length_assemble_plain]

theorem listedAt_branch (held otherwise rest : Code) (ip : Nat) :
    listedAt (.branch opcode operands held otherwise :: rest) ip =
      ⟨ip, opcode, operands ++ [UInt32.ofNat held.size, UInt32.ofNat otherwise.size]⟩ ::
        (held.listedAt (ip + (operands.length + 3)) ++
          (otherwise.listedAt (ip + (operands.length + 3) + held.size) ++
            rest.listedAt (ip + (operands.length + 3) + held.size + otherwise.size))) := by
  change _ :: ((held.listedAt _ ++ otherwise.listedAt _) ++ rest.listedAt _) = _
  rw [length_assemble_branch, List.append_assoc, show ip + (operands.length + 3 + held.size +
    otherwise.size) = ip + (operands.length + 3) + held.size + otherwise.size by omega]
  rfl

theorem listedAt_loop (body rest : Code) (ip : Nat) :
    listedAt (.loop body :: rest) ip = ⟨ip, .whileNotError, [UInt32.ofNat body.size]⟩ ::
      (body.listedAt (ip + 2) ++ rest.listedAt (ip + 2 + body.size)) := by
  change _ :: (body.listedAt _ ++ rest.listedAt _) = _
  rw [length_assemble_loop, ← Nat.add_assoc]
  rfl

/-- The words of typed code are listed as its instructions. -/
theorem Typed.listFrom_assemble (h : c.Typed P n kinds n' kinds') :
    ∀ {offset : Nat} {ws : List UInt32} {is : List Instruction}, c.size < 2 ^ 32 →
      Instruction.listFrom (offset + c.size) ws = .ok is →
      Instruction.listFrom offset (c.assemble ++ ws) = .ok (c.listedAt offset ++ is) := by
  induction h with
  | nil => exact fun _ hws => hws
  | forget _ _ ih => exact ih
  | plain hfits _ _ _ _ ih =>
    intro offset ws is hsize hws
    rw [size_cons, length_assemble_plain] at hsize hws
    rw [← Nat.add_assoc] at hws
    rw [assemble_plain_append, listedAt_plain]
    exact Instruction.listFrom_cons hfits (by omega) (ih (by omega) hws)
  | branch hsplits hwidth _ _ _ _ ih_held ih_otherwise ih =>
    intro offset ws is hsize hws
    rw [size_cons, length_assemble_branch] at hsize hws
    simp only [← Nat.add_assoc] at hws
    have hblocks := ih_held (by omega) (ih_otherwise (by omega) (ih (by omega) hws))
    rw [assemble_branch_append, listedAt_branch, List.cons_append]
    simp only [List.append_assoc _ _ is]
    refine Instruction.listFrom_cons (Instr.fits_branch hsplits.isCondition hwidth _ _) ?_ ?_
    · rw [List.length_append]
      simp only [List.length_cons, List.length_nil]
      omega
    · rw [List.length_append]
      exact hblocks
  | @loop body _ _ _ _ _ _ _ ih_body ih =>
    intro offset ws is hsize hws
    rw [size_cons, length_assemble_loop] at hsize hws
    simp only [← Nat.add_assoc] at hws
    have hblocks := ih_body (by omega) (ih (by omega) hws)
    rw [assemble_loop_append, listedAt_loop, List.cons_append, List.append_assoc]
    have hfits : Instr.Fits .whileNotError [UInt32.ofNat body.assemble.length] := by simp
    exact Instruction.listFrom_cons hfits (by simp) hblocks

/-- The operands of typed code refer to what its instructions need. -/
theorem Typed.refers (h : c.Typed P n kinds n' kinds') :
    ∀ ip, ∀ i ∈ c.listedAt ip, P.Refers (Instr.arg i.operands) i.opcode := by
  induction h with
  | nil => exact fun _ _ hi => absurd hi List.not_mem_nil
  | forget _ _ ih => exact ih
  | plain _ _ hrefers _ _ ih =>
    intro ip i hi
    rw [listedAt_plain, List.mem_cons] at hi
    rcases hi with rfl | hi
    · exact hrefers
    · exact ih _ i hi
  | branch hsplits hwidth hrefers _ _ _ ih_held ih_otherwise ih =>
    intro ip i hi
    rw [listedAt_branch, List.mem_cons, List.mem_append, List.mem_append] at hi
    rcases hi with rfl | hi | hi | hi
    · refine (Program.refers_congr (.inr ⟨hsplits.isCondition, hwidth⟩) fun i hi => ?_).mpr hrefers
      rw [Instr.arg, Instr.arg, Nat.add_sub_cancel, List.getD_eq_getElem?_getD, List.getD_eq_getElem?_getD,
        List.getElem?_append_left hi]
    · exact ih_held _ i hi
    · exact ih_otherwise _ i hi
    · exact ih _ i hi
  | loop _ _ ih_body ih =>
    intro ip i hi
    rw [listedAt_loop, List.mem_cons, List.mem_append] at hi
    rcases hi with rfl | hi | hi
    · trivial
    · exact ih_body _ i hi
    · exact ih _ i hi

end Code

/-! ## Blocks -/

/-- The words between two offsets, of which the second is where a block ends, are instructions of a
listing, and so are the words of the blocks of those. A number of regions without reports is open at
the first offset, and none at the second. -/
inductive Nests (code : Array UInt32) (is : List Instruction) : Nat → Nat → Nat → Prop
  /-- The block ends, and every region is closed. -/
  | done {stop : Nat} : Nests code is stop stop 0
  /-- An instruction without blocks, which may open or close a region. -/
  | plain {i : Instruction} {stop n n' : Nat} (listed : i ∈ is)
      (not_condition : i.opcode.isCondition = false) (not_loop : i.opcode.isLoop = false)
      (regions : i.opcode.regions? n = some n')
      (next : Nests code is (i.offset + i.words.length) stop n') : Nests code is i.offset stop n
  /-- A condition with its blocks one after the other, which move the stack equally far. -/
  | condition {i : Instruction} {own : List UInt32} {w₁ w₂ : UInt32} {t f base stop n : Nat}
      {e : Int32} (listed : i ∈ is) (condition : i.opcode.isCondition = true)
      (operands : i.operands = own ++ [w₁, w₂]) (t_eq : w₁.toNat = t) (f_eq : w₂.toNat = f)
      (base_eq : i.offset + i.words.length = base)
      (held : Nests code is base (base + t) 0)
      (otherwise : Nests code is (base + t) (base + t + f) 0)
      (effect_held : stackEffect (code.extract base (base + t)).toList = .ok e)
      (effect_otherwise : stackEffect (code.extract (base + t) (base + t + f)).toList = .ok e)
      (next : Nests code is (base + t + f) stop n) : Nests code is i.offset stop n
  /-- A loop with its body, which does not move the stack. -/
  | loop {i : Instruction} {own : List UInt32} {w : UInt32} {b base stop n : Nat}
      (listed : i ∈ is) (is_loop : i.opcode.isLoop = true) (operands : i.operands = own ++ [w])
      (b_eq : w.toNat = b) (base_eq : i.offset + i.words.length = base)
      (body : Nests code is base (base + b) 0)
      (effect : stackEffect (code.extract base (base + b)).toList = .ok 0)
      (next : Nests code is (base + b) stop n) : Nests code is i.offset stop n

variable {code : Array UInt32}

theorem Stand.extract_eq {ip : Nat} {words : List UInt32} (h : Stand code ip words) :
    (code.extract ip (ip + words.length)).toList = words := by
  refine List.ext_getElem? fun i => ?_
  rw [Array.getElem?_toList, Array.getElem?_extract]
  by_cases hi : i < words.length
  · have hword := h i hi
    rw [List.getElem?_eq_getElem hi] at hword
    have hlt : ip + i < code.size := (Array.getElem?_eq_some_iff.mp hword).choose
    rw [if_pos (by omega), hword, List.getElem?_eq_getElem hi]
  · rw [if_neg (by omega), List.getElem?_eq_none (by omega)]

/-- Typed code nests if what is behind it does. -/
theorem Code.Typed.nests (h : c.Typed P n kinds n' kinds') {is : List Instruction} :
    ∀ {ip stop : Nat}, Stand code ip c.assemble → c.size < 2 ^ 32 →
      (∀ i ∈ c.listedAt ip, i ∈ is) → Nests code is (ip + c.size) stop n' →
      Nests code is ip stop n := by
  induction h with
  | nil => exact fun _ _ _ hnext => hnext
  | forget _ _ ih => exact ih
  | @plain opcode operands rest n n₁ _ _ _ _ hfits htakes _ hregions _ ih =>
    intro ip stop hstand hsize hlisted hnext
    rw [size_cons, length_assemble_plain] at hsize hnext
    rw [← Nat.add_assoc] at hnext
    rw [listedAt_plain, List.forall_mem_cons] at hlisted
    have hrest := ih hstand.plain.2 (by omega) hlisted.2 hnext
    exact .plain hlisted.1 htakes.plain.1 htakes.plain.2 hregions hrest
  | @branch opcode operands held otherwise _ _ _ _ _ _ _ _ hsplits hwidth _ htyped_held
      htyped_otherwise _ ih_held ih_otherwise ih =>
    intro ip stop hstand hsize hlisted hnext
    rw [size_cons, length_assemble_branch] at hsize hnext
    simp only [← Nat.add_assoc _ _ (Code.size _)] at hnext
    rw [listedAt_branch, List.forall_mem_cons, List.forall_mem_append, List.forall_mem_append]
      at hlisted
    obtain ⟨hinstr, hheld, hotherwise, hrest⟩ := hlisted
    obtain ⟨-, hstand_held, hstand_otherwise, hstand_rest⟩ := hstand.branch
    have ht : (UInt32.ofNat held.size).toNat = held.size :=
      UInt32.toNat_ofNat_of_lt' (show held.size < 2 ^ 32 by omega)
    have hf : (UInt32.ofNat otherwise.size).toNat = otherwise.size :=
      UInt32.toNat_ofNat_of_lt' (show otherwise.size < 2 ^ 32 by omega)
    have hbase : ip + (Instruction.words ⟨ip, opcode, operands ++
        [UInt32.ofNat held.size, UInt32.ofNat otherwise.size]⟩).length =
          ip + (operands.length + 3) := by
      rw [Instruction.words, List.length_cons, List.length_append]
      rfl
    have heffect_held := htyped_held.stackEffect_assemble (show held.size < 2 ^ 32 by omega)
    have heffect_otherwise :=
      htyped_otherwise.stackEffect_assemble (show otherwise.size < 2 ^ 32 by omega)
    rw [← hstand_held.extract_eq] at heffect_held
    rw [← hstand_otherwise.extract_eq,
      ← hsplits.effect_eq htyped_held htyped_otherwise] at heffect_otherwise
    exact .condition hinstr hsplits.isCondition rfl ht hf hbase
      (ih_held hstand_held (by omega) hheld .done)
      (ih_otherwise hstand_otherwise (by omega) hotherwise .done) heffect_held heffect_otherwise
      (ih hstand_rest (by omega) hrest hnext)
  | @loop body _ _ _ _ _ htyped_body _ ih_body ih =>
    intro ip stop hstand hsize hlisted hnext
    rw [size_cons, length_assemble_loop] at hsize hnext
    simp only [← Nat.add_assoc _ _ (Code.size _)] at hnext
    rw [listedAt_loop, List.forall_mem_cons, List.forall_mem_append] at hlisted
    obtain ⟨hinstr, hbody, hrest⟩ := hlisted
    obtain ⟨-, hstand_body, hstand_rest⟩ := hstand.loop
    have hb : (UInt32.ofNat body.size).toNat = body.size :=
      UInt32.toNat_ofNat_of_lt' (show body.size < 2 ^ 32 by omega)
    have heffect := htyped_body.stackEffect_assemble (show body.size < 2 ^ 32 by omega)
    rw [← hstand_body.extract_eq, htyped_body.effect_body] at heffect
    exact .loop hinstr rfl (List.nil_append _).symm hb rfl
      (ih_body hstand_body (by omega) hbody .done) heffect (ih hstand_rest (by omega) hrest hnext)

/-! ## Rules -/

/-- The machine code of a rule is well formed, given its listing. -/
structure Program.WellFormedCode (P : Program) (code : Array UInt32) (is : List Instruction) :
    Prop where
  /-- There is a listing. -/
  listing : Instruction.listing code = .ok is
  /-- The listing has all the words and no others. -/
  words : is.flatMap Instruction.words = code.toList
  /-- Every instruction of the listing stands behind the words of those before it. -/
  offsets : ∀ before i after, is = before ++ i :: after →
    i.offset = (before.flatMap Instruction.words).length
  /-- Constants are of the kind that is asked for, rules and actions exist, and actions have as many
  parameters as they are given arguments. -/
  refers : ∀ i ∈ is, P.Refers (Instr.arg i.operands) i.opcode
  /-- Blocks are inside of each other, made of whole instructions, and close their regions. -/
  nests : Nests code is 0 code.size 0
  /-- The code makes one entry. -/
  effect : stackEffect code.toList = .ok 1
  /-- The code can be unrolled. -/
  unrolls : ∀ index name, ∃ r, Routine.unroll index name code = .ok r

theorem Code.Typed.wellFormedCode (h : c.Typed P 0 [] 0 [.result]) (heffect : c.effect = 1)
    (hsize : c.size < 2 ^ 32) : P.WellFormedCode c.assemble.toArray (c.listedAt 0) := by
  have hstand : Stand c.assemble.toArray 0 c.assemble := fun i _ => by simp
  have hlisting : Instruction.listing c.assemble.toArray = .ok (c.listedAt 0) := by
    have hall : Instruction.listFrom 0 (c.assemble ++ []) = .ok (c.listedAt 0 ++ []) :=
      h.listFrom_assemble hsize (by rw [Instruction.listFrom])
    rwa [List.append_nil, List.append_nil] at hall
  obtain ⟨hwords, hoffsets⟩ := Instruction.listFrom_eq_ok hlisting
  refine ⟨hlisting, hwords, fun before i after heq => ?_, h.refers 0, ?_, ?_,
    Routine.exists_unroll h hsize⟩
  · rw [hoffsets before i after heq, Nat.zero_add]
  · refine h.nests hstand hsize (fun i hi => hi) ?_
    rw [Nat.zero_add, show c.assemble.toArray.size = c.size by simp [Code.size]]
    exact .done
  · rw [h.stackEffect_assemble hsize, heffect]

/-- The machine code that is generated for a linked grammar is well formed, rule by rule, as long as
sizes fit into its words. -/
theorem Facts.generate_wellFormed {g : Grammar} {f : Facts} {generated : Generated}
    (hg : f.generate g = .ok generated) (hf : f.Resolves g) (hc : P.Carries generated)
    (hP : P.Addressable) (r : Program.Rule) (hr : r ∈ P.rules) :
    ∃ is, P.WellFormedCode r.code is := by
  have hmem : r.code ∈ P.rules.toList.map (·.code) := List.mem_map_of_mem (Array.mem_def.mp hr)
  rw [hc.code] at hmem
  obtain ⟨code, hcode, hwords⟩ := List.mem_map.mp hmem
  obtain ⟨i, hi⟩ := List.mem_iff_getElem?.mp hcode
  have hrel := getElem?_rel (hc.rules_typed hg hf hP) i
  rw [hi] at hrel
  generalize g.rules[i]? = rule at hrel
  cases hrel with
  | some htyped =>
    have hsize : code.size < 2 ^ 32 := hc.size_lt hP hcode
    rw [← hwords]
    exact ⟨_, (htyped.typed hsize).wellFormedCode htyped.effect hsize⟩

/-- The rule that runs code on any character has well-formed machine code. -/
theorem labeledCharacter_wellFormed :
    ∃ r is, labeledCharacterSetting.program.rules[0]? = some r ∧
      labeledCharacterSetting.program.WellFormedCode r.code is := by
  have hg : (Facts.linked labeledCharacter).generate labeledCharacter =
    .ok labeledCharacterCode := by cbv
  have hfit : labeledCharacterSetting.program.Addressable := by
    constructor <;> decide
  obtain ⟨hcode, hconstants, hactions⟩ := labeledCharacterCode.program_carries hg false
  obtain ⟨r, hr⟩ : ∃ r, labeledCharacterSetting.program.rules[0]? = some r := ⟨_, rfl⟩
  obtain ⟨is, his⟩ := Facts.generate_wellFormed hg (Facts.resolves_link _ _ _)
    (P := labeledCharacterSetting.program) ⟨hcode, hconstants, hactions⟩ hfit r
    (Array.mem_of_getElem? hr)
  exact ⟨r, is, hr, his⟩

end PegMachine
