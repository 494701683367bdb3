import PegMachine.Proofs.Placement

/-!
# What listings leave out

Nothing. Words are taken apart in one way only: as many whole instructions as there are, one behind
the other, and then nothing at all or a word with which no whole instruction begins. In the first
case the instructions are the listing, in the second one the word is the fault. So a listing can be
turned back into the words that it lists, and every row of whole instructions is a listing.
-/

namespace PegMachine.Instruction

/-- An instruction has the operands that its opcode asks for and no others; to those of a call its
third operand adds. -/
def IsWhole (i : Instruction) : Prop := i.operands.length = i.opcode.width (Instr.arg i.operands)

/-- Instructions stand one behind the other, the first of them at an offset. -/
def InLine : Nat → List Instruction → Prop
  | _, [] => True
  | offset, i :: rest => i.offset = offset ∧ InLine (offset + i.words.length) rest

/-- Whole instructions one behind the other, the first of them at an offset. -/
structure IsRow (offset : Nat) (is : List Instruction) : Prop where
  inLine : InLine offset is
  whole : ∀ i ∈ is, i.IsWhole

/-- No whole instruction begins with the first of some words. -/
def IsBroken (ws : List UInt32) : Prop := ∀ i : Instruction, i.IsWhole → ¬ i.words <+: ws

variable {offset n : Nat} {i : Instruction} {is : List Instruction} {word : UInt32}
  {opcode : Opcode} {ws rest : List UInt32}

theorem word_of_ofWord? (h : Opcode.ofWord? word = some opcode) : opcode.word = word := by
  have hnat : ∀ k, Opcode.ofNat? k = some opcode → opcode.word.toNat = k := by
    intro k hk
    unfold Opcode.ofNat? at hk
    split at hk
    all_goals
      cases hk
      try rfl
  exact UInt32.toNat_inj.mp (hnat _ h)

theorem isRow_nil (offset : Nat) : IsRow offset [] := ⟨trivial, nofun⟩

theorem isRow_cons :
    IsRow offset (i :: is) ↔
      i.offset = offset ∧ i.IsWhole ∧ IsRow (offset + i.words.length) is := by
  constructor
  · rintro ⟨⟨hoffset, hline⟩, hwhole⟩
    exact ⟨hoffset, hwhole i List.mem_cons_self,
      hline, fun j hj => hwhole j (List.mem_cons_of_mem _ hj)⟩
  · rintro ⟨hoffset, hi, hline, hwhole⟩
    exact ⟨⟨hoffset, hline⟩, List.forall_mem_cons.mpr ⟨hi, hwhole⟩⟩

/-- An instruction stands behind the words of those before it. -/
theorem InLine.offset_eq {before after : List Instruction}
    (h : InLine offset (before ++ i :: after)) :
    i.offset = offset + (before.flatMap words).length := by
  induction before generalizing offset with
  | nil => exact h.1
  | cons first before ih =>
    rw [ih h.2, List.flatMap_cons, List.length_append, Nat.add_assoc]

/-! ## One instruction -/

/-- The operands of a whole instruction are counted right, whatever stands behind them. -/
theorem IsWhole.operandCount?_eq (h : i.IsWhole) (rest : List UInt32) :
    operandCount? i.opcode (i.operands ++ rest) = some i.operands.length := by
  rw [IsWhole, Opcode.width] at h
  rw [operandCount?]
  split at h
  · next hcall =>
    have hlt : 2 < i.operands.length := by
      rw [hcall, Opcode.operands] at h
      omega
    have hthird : Instr.arg i.operands 3 = i.operands[2].toNat := by
      rw [Instr.arg, List.getD_eq_getElem?_getD, List.getElem?_eq_getElem hlt, Option.getD_some]
    rw [if_pos hcall, List.getElem?_append_left hlt, List.getElem?_eq_getElem hlt, Option.map_some,
      h, hthird]
  · next hcall => rw [if_neg hcall, h, Nat.add_zero]

/-- Operands that were counted make an instruction whole. -/
theorem isWhole_of_operandCount? (hcount : operandCount? opcode rest = some n)
    (hn : n ≤ rest.length) (offset : Nat) : IsWhole ⟨offset, opcode, rest.take n⟩ := by
  rw [IsWhole, List.length_take_of_le hn, Opcode.width]
  rw [operandCount?] at hcount
  split at hcount
  · next hcall =>
    obtain ⟨count, hthird, rfl⟩ := Option.map_eq_some_iff.mp hcount
    have hlt : 2 < opcode.operands + count.toNat := by
      rw [hcall, Opcode.operands]
      omega
    rw [if_pos hcall, Instr.arg, List.getD_eq_getElem?_getD, List.getElem?_take_of_lt hlt, hthird,
      Option.getD_some]
  · next hcall =>
    rw [if_neg hcall, Nat.add_zero]
    exact (Option.some.inj hcount).symm

/-- What is listed first is the whole instruction that comes first. -/
theorem IsWhole.listFrom_append (h : i.IsWhole) (rest : List UInt32) :
    listFrom i.offset (i.words ++ rest) =
      (listFrom (i.offset + i.words.length) rest).map (i :: ·) := by
  rw [words, List.cons_append, listFrom, Opcode.ofWord?_word]
  dsimp only
  rw [h.operandCount?_eq]
  dsimp only
  rw [if_pos (by rw [List.length_append]; omega), List.drop_left, List.take_left, List.length_cons,
    Nat.add_assoc, Nat.add_comm 1]

/-- The fault of a word with which no whole instruction begins. -/
def faultAt (offset : Nat) (word : UInt32) : ListingError :=
  match Opcode.ofWord? word with
  | none => .invalidOpcode offset word
  | some opcode => .truncated offset opcode

/-- A word that is followed by the operands it asks for begins a whole instruction. -/
theorem exists_isWhole (hopcode : Opcode.ofWord? word = some opcode)
    (hcount : operandCount? opcode rest = some n) (hn : n ≤ rest.length) (offset : Nat) :
    ∃ i : Instruction, i.offset = offset ∧ i.IsWhole ∧ i.words ++ rest.drop n = word :: rest :=
  ⟨⟨offset, opcode, rest.take n⟩, rfl, isWhole_of_operandCount? hcount hn offset, by
    rw [words, word_of_ofWord? hopcode, List.cons_append, List.take_append_drop]⟩

theorem IsBroken.not_append (h : IsBroken ws) (hi : i.IsWhole) (rest : List UInt32) :
    ws ≠ i.words ++ rest := by
  rintro rfl
  exact h i hi (List.prefix_append _ _)

/-- Words with which no whole instruction begins are not listed, and their first one is to blame. -/
theorem IsBroken.listFrom_eq (h : IsBroken (word :: rest)) (offset : Nat) :
    listFrom offset (word :: rest) = .error (faultAt offset word) := by
  rw [listFrom, faultAt]
  cases hopcode : Opcode.ofWord? word with
  | none => rfl
  | some opcode =>
    dsimp only
    cases hcount : operandCount? opcode rest with
    | none => rfl
    | some n =>
      dsimp only
      rw [if_neg]
      intro hn
      obtain ⟨i, -, hi, hwords⟩ := exists_isWhole hopcode hcount hn offset
      exact h.not_append hi _ hwords.symm

/-- Words begin with a whole instruction, or they do not. -/
theorem begins_or_isBroken (offset : Nat) (ws : List UInt32) :
    (∃ i rest, i.offset = offset ∧ IsWhole i ∧ i.words ++ rest = ws) ∨ IsBroken ws := by
  by_cases h : ∃ i : Instruction, i.IsWhole ∧ i.words <+: ws
  · obtain ⟨i, hi, rest, hwords⟩ := h
    exact .inl ⟨⟨offset, i.opcode, i.operands⟩, rest, rfl, hi, hwords⟩
  · exact .inr fun i hi hprefix => h ⟨i, hi, hprefix⟩

/-! ## Rows of instructions -/

/-- What is listed first are the whole instructions that come first. -/
theorem IsRow.listFrom_append (h : IsRow offset is) (rest : List UInt32) :
    listFrom offset (is.flatMap words ++ rest) =
      (listFrom (offset + (is.flatMap words).length) rest).map (is ++ ·) := by
  induction is generalizing offset with
  | nil =>
    rw [List.flatMap_nil, List.nil_append, List.length_nil, Nat.add_zero]
    cases listFrom offset rest <;> rfl
  | cons i is ih =>
    obtain ⟨rfl, hi, his⟩ := isRow_cons.mp h
    rw [List.flatMap_cons, List.append_assoc, hi.listFrom_append, ih his, List.length_append,
      Nat.add_assoc]
    cases listFrom (i.offset + (i.words.length + (is.flatMap words).length)) rest <;> rfl

/-- Words are whole instructions and then something with which none begins. -/
theorem exists_isRow (offset : Nat) (ws : List UInt32) :
    ∃ is rest, IsRow offset is ∧ ws = is.flatMap words ++ rest ∧ IsBroken rest := by
  induction hlength : ws.length using Nat.strong_induction_on generalizing offset ws with
  | _ k ih =>
    subst hlength
    obtain ⟨i, behind, hoffset, hi, rfl⟩ | hbroken := begins_or_isBroken offset ws
    · have hshorter : behind.length < (i.words ++ behind).length := by
        rw [List.length_append, words, List.length_cons]
        omega
      obtain ⟨is, rest, hrow, hbehind, hrest⟩ := ih _ hshorter (offset + i.words.length) behind rfl
      refine ⟨i :: is, rest, isRow_cons.mpr ⟨hoffset, hi, hrow⟩, ?_, hrest⟩
      rw [List.flatMap_cons, List.append_assoc, ← hbehind]
    · exact ⟨[], ws, isRow_nil offset, rfl, hbroken⟩

/-- The listing of a row of whole instructions is the row, if nothing is behind it. -/
theorem IsRow.listFrom_words (h : IsRow offset is) :
    listFrom offset (is.flatMap words) = .ok is := by
  have hall := h.listFrom_append []
  rwa [List.append_nil, listFrom, Except.map, List.append_nil] at hall

/-- The listing of a row of whole instructions ends at the first word behind it that is at fault. -/
theorem IsRow.listFrom_broken (h : IsRow offset is) (hbroken : IsBroken (word :: rest)) :
    listFrom offset (is.flatMap words ++ word :: rest) =
      .error (faultAt (offset + (is.flatMap words).length) word) := by
  rw [h.listFrom_append, hbroken.listFrom_eq]
  rfl

/-- A listing is the row of whole instructions whose words are listed. -/
theorem listFrom_eq_ok_iff :
    listFrom offset ws = .ok is ↔ IsRow offset is ∧ is.flatMap words = ws := by
  constructor
  · intro h
    obtain ⟨row, rest, hrow, rfl, hbroken⟩ := exists_isRow offset ws
    cases rest with
    | nil =>
      rw [List.append_nil] at h ⊢
      rw [hrow.listFrom_words] at h
      cases h
      exact ⟨hrow, rfl⟩
    | cons word rest =>
      rw [hrow.listFrom_broken hbroken] at h
      cases h
  · rintro ⟨hrow, rfl⟩
    exact hrow.listFrom_words

/-- Words are not listed if and only if whole instructions are followed by a word with which none
begins, which is then to blame. -/
theorem listFrom_eq_error_iff {e : ListingError} :
    listFrom offset ws = .error e ↔ ∃ is word rest, IsRow offset is ∧ IsBroken (word :: rest) ∧
      ws = is.flatMap words ++ word :: rest ∧
      e = faultAt (offset + (is.flatMap words).length) word := by
  constructor
  · intro h
    obtain ⟨row, rest, hrow, rfl, hbroken⟩ := exists_isRow offset ws
    cases rest with
    | nil =>
      rw [List.append_nil, hrow.listFrom_words] at h
      cases h
    | cons word rest =>
      rw [hrow.listFrom_broken hbroken] at h
      cases h
      exact ⟨row, word, rest, hrow, hbroken, rfl, rfl⟩
  · rintro ⟨is, word, rest, hrow, hbroken, rfl, rfl⟩
    exact hrow.listFrom_broken hbroken

/-! ## Machine code -/

variable {code : Array UInt32} {ip : Nat}

theorem getElem?_of_drop (hdrop : code.toList.drop ip = word :: rest) (k : Nat) :
    code[ip + k]? = (word :: rest)[k]? := by
  rw [← hdrop, List.getElem?_drop, Array.getElem?_toList]

/-- The operands of an instruction are those of its opcode and its parameters. -/
theorem operandCount?_of_drop (hdrop : code.toList.drop ip = word :: rest) (opcode : Opcode) :
    operandCount? opcode rest = (parameterCount? code ip opcode).map (opcode.operands + ·) := by
  have hthird : code[ip + 3]? = rest[2]? := getElem?_of_drop hdrop 3
  rw [operandCount?, parameterCount?, hthird]
  split
  · rw [Option.map_map]
    rfl
  · rfl

/-- The length of the instruction at an offset is one more than the operands that are counted in the
words from there on, if these are as many. -/
theorem length?_eq_some_iff_of_drop (hdrop : code.toList.drop ip = word :: rest) :
    length? code ip = some n ↔ ∃ opcode k, Opcode.ofWord? word = some opcode ∧
      operandCount? opcode rest = some k ∧ k ≤ rest.length ∧ k + 1 = n := by
  have hsize : code.size = ip + (rest.length + 1) := by
    have hlength := congrArg List.length hdrop
    rw [List.length_drop, Array.length_toList, List.length_cons] at hlength
    omega
  have hword : code[ip]? = some word := getElem?_of_drop hdrop 0
  simp only [length?, hword, Option.bind_some, operandCount?_of_drop hdrop]
  cases hopcode : Opcode.ofWord? word with
  | none => simp
  | some opcode =>
    cases hparameters : parameterCount? code ip opcode with
    | none => simp [hparameters]
    | some parameters =>
      have hfits : ip + (1 + opcode.operands + parameters) ≤ code.size ↔
          opcode.operands + parameters ≤ rest.length := by omega
      have hlength : 1 + opcode.operands + parameters = n ↔
          opcode.operands + parameters + 1 = n := by omega
      simp [hparameters, hfits, hlength, -Opcode.operands]

/-- An instruction has a length if a whole one stands at the offset, and then it is the length of
its words. -/
theorem length?_eq_some_iff : length? code ip = some n ↔
    ∃ i : Instruction, i.IsWhole ∧ i.words <+: code.toList.drop ip ∧ i.words.length = n := by
  cases hdrop : code.toList.drop ip with
  | nil =>
    have hend : code[ip]? = none := by
      rw [← Array.getElem?_toList, List.getElem?_eq_none (List.drop_eq_nil_iff.mp hdrop)]
    rw [length?, hend]
    simp [words]
  | cons word rest =>
    rw [length?_eq_some_iff_of_drop hdrop]
    constructor
    · rintro ⟨opcode, k, hopcode, hcount, hk, rfl⟩
      refine ⟨⟨ip, opcode, rest.take k⟩, isWhole_of_operandCount? hcount hk ip, ?_, ?_⟩
      · rw [words, word_of_ofWord? hopcode]
        exact List.cons_prefix_cons.mpr ⟨rfl, List.take_prefix _ _⟩
      · rw [words, List.length_cons, List.length_take_of_le hk]
    · rintro ⟨i, hi, ⟨behind, hwords⟩, rfl⟩
      rw [words, List.cons_append] at hwords
      obtain ⟨rfl, rfl⟩ := List.cons.inj hwords
      exact ⟨i.opcode, i.operands.length, Opcode.ofWord?_word _, hi.operandCount?_eq behind,
        by rw [List.length_append]; omega, rfl⟩

/-- Machine code is listed if and only if it is a row of whole instructions, which is then the
listing. Otherwise the fault is at the end of the whole instructions that it begins with: the word
there is no opcode, or it is one and there are not as many operands as it asks for. An instruction
is as long as its opcode, and the third operand of a call, says. -/
theorem listing_exact (code : Array UInt32) :
    (∀ is, listing code = .ok is ↔ IsRow 0 is ∧ is.flatMap words = code.toList) ∧
    (∀ e, listing code = .error e ↔ ∃ is word rest, IsRow 0 is ∧
      code.toList = is.flatMap words ++ word :: rest ∧ IsBroken (word :: rest) ∧
      ((Opcode.ofWord? word = none ∧ e = .invalidOpcode (is.flatMap words).length word) ∨
        ∃ opcode, Opcode.ofWord? word = some opcode ∧
          e = .truncated (is.flatMap words).length opcode)) ∧
    ∀ ip n, length? code ip = some n ↔
      ∃ i : Instruction, i.IsWhole ∧ i.words <+: code.toList.drop ip ∧ i.words.length = n := by
  refine ⟨fun is => listFrom_eq_ok_iff, fun e => ?_, fun ip n => length?_eq_some_iff⟩
  have hfault (at_ : Nat) (word : UInt32) : e = faultAt at_ word ↔
      (Opcode.ofWord? word = none ∧ e = .invalidOpcode at_ word) ∨
        ∃ opcode, Opcode.ofWord? word = some opcode ∧ e = .truncated at_ opcode := by
    rw [faultAt]
    cases Opcode.ofWord? word <;> simp
  rw [listing, listFrom_eq_error_iff]
  constructor
  · rintro ⟨is, word, rest, hrow, hbroken, hcode, he⟩
    rw [Nat.zero_add, hfault] at he
    exact ⟨is, word, rest, hrow, hcode, hbroken, he⟩
  · rintro ⟨is, word, rest, hrow, hcode, hbroken, he⟩
    rw [← hfault] at he
    exact ⟨is, word, rest, hrow, hbroken, hcode, by rwa [Nat.zero_add]⟩

end PegMachine.Instruction
