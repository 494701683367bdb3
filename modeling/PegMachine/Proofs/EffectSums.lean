import PegMachine.Proofs.WellFormedCode

/-!
# Sums of heights

The check of stack effects recurses into the words of blocks, while a run goes from offset to offset
of one array. In between stands a relation on offsets: from one offset to another the instructions
add up to a height, every block on its own from zero, and no block reaches past the end of the block
around it. The check accepts code whose sums are related in this way up to a multiple of 2 ^ 32;
where no sum on the way leaves the 32 bits, they are related exactly.
-/

namespace PegMachine

variable {code : Array UInt32} {ip stop n : Nat} {h h' h₁ h₂ d e : Int} {k k' : Int32}
  {opcode : Opcode} {a b : Nat → Nat}

/-! ## What instructions take and give -/

namespace Opcode

/-- The number of entries that an instruction without blocks takes off the stack, given its words.
Entries that are only looked at are not counted. -/
def taken (opcode : Opcode) (arg : Nat → Nat) : Nat :=
  match opcode with
  | .pop | .popCurrPos | .text => 1
  | .nip | .append => 2
  | .popN | .wrap => arg 1
  | .call => arg 2
  | _ => 0

/-- The number of entries that an instruction without blocks puts on the stack. -/
def given : Opcode → Nat
  | .push | .pushCurrPos | .acceptN | .acceptString | .acceptRegexp | .fail | .rule
  | .pushUndefined | .pushNull | .pushFailed | .pushEmptyArray
  | .nip | .append | .wrap | .text | .call => 1
  | _ => 0

/-- How far an instruction without blocks moves the top of the stack. -/
def shift (opcode : Opcode) (arg : Nat → Nat) : Int := opcode.given - opcode.taken arg

theorem taken_congr (hargs : ∀ i < opcode.width a, a (i + 1) = b (i + 1)) :
    opcode.taken a = opcode.taken b := by
  cases opcode with
  | popN | wrap => exact hargs 0 (by simp [width])
  | call => exact hargs 1 (by simp only [width, operands, if_true]; omega)
  | _ => rfl

theorem shift_congr (hargs : ∀ i < opcode.width a, a (i + 1) = b (i + 1)) :
    opcode.shift a = opcode.shift b := by
  rw [shift, shift, taken_congr hargs]

end Opcode

/-- The check counts, in 32 bits, what an instruction gives less what it takes. -/
theorem StackEffect.plain_eq_shift (opcode : Opcode) (operands : List UInt32) :
    plain opcode operands = .ofInt (opcode.shift (Instr.arg operands)) := by
  have hword : ∀ i, (operands.getD i 0).toInt32 = .ofInt (Instr.arg operands (i + 1)) := fun i => by
    rw [Instr.toInt32_getD, Int32.ofInt_eq_ofNat]
  cases opcode with
  | popN | wrap | call =>
    simp only [plain, Opcode.shift, Opcode.given, Opcode.taken, hword, Int32.ofInt_sub]
    simp [Int32.sub_eq_add_neg]
  | _ => rfl

namespace Stand

variable {words : List UInt32}

theorem take (hstand : Stand code ip words) (m : Nat) : Stand code ip (words.take m) :=
  (append.mp ((List.take_append_drop m words).symm ▸ hstand)).1

theorem drop (hstand : Stand code ip words) {m : Nat} (hm : m ≤ words.length) :
    Stand code (ip + m) (words.drop m) := by
  have hbehind := (append.mp ((List.take_append_drop m words).symm ▸ hstand)).2
  rwa [List.length_take, Nat.min_eq_left hm] at hbehind

end Stand

/-! ## Sums from offset to offset -/

/-- The words of the instruction at an offset. -/
abbrev Instruction.argAt (code : Array UInt32) (ip i : Nat) : Nat := wordAt code (ip + i)

open Instruction in
/-- Between two offsets there are whole instructions, which take the height of the stack from one to
another. Blocks lie inside of the block around them, and their heights are counted from zero on.
The effects of both blocks of a condition are related by `same`, the effect of the body of a loop is
so related to zero, and `fits` holds of every sum that is made on the way. -/
inductive Adds (same : Int → Int → Prop) (fits : Int → Prop) (code : Array UInt32) :
    Nat → Nat → Int → Int → Prop
  /-- There are no instructions left. -/
  | done {ip : Nat} {h : Int} : Adds same fits code ip ip h h
  /-- An instruction without blocks. -/
  | plain {ip stop : Nat} {h h' : Int} {opcode : Opcode}
      (word : (code[ip]?).bind Opcode.ofWord? = some opcode)
      (not_condition : opcode.isCondition = false) (not_loop : opcode.isLoop = false)
      (inside : ip + 1 + opcode.width (argAt code ip) ≤ stop)
      (fit : fits (h + opcode.shift (argAt code ip)))
      (next : Adds same fits code (ip + 1 + opcode.width (argAt code ip)) stop
        (h + opcode.shift (argAt code ip)) h') :
      Adds same fits code ip stop h h'
  /-- A condition, which goes on with the effect of its blocks. -/
  | branch {ip stop base t f : Nat} {h h' d e : Int} {opcode : Opcode}
      (word : (code[ip]?).bind Opcode.ofWord? = some opcode) (condition : opcode.isCondition = true)
      (base_eq : ip + 1 + opcode.operands = base) (t_eq : argAt code ip (opcode.operands - 1) = t)
      (f_eq : argAt code ip opcode.operands = f) (inside : base + t + f ≤ stop)
      (held : Adds same fits code base (base + t) 0 d)
      (otherwise : Adds same fits code (base + t) (base + t + f) 0 e)
      (agree : same d e) (fit : fits (h + d))
      (next : Adds same fits code (base + t + f) stop (h + d) h') :
      Adds same fits code ip stop h h'
  /-- A loop, however often its body is run. -/
  | loop {ip stop b : Nat} {h h' d : Int} {opcode : Opcode}
      (word : (code[ip]?).bind Opcode.ofWord? = some opcode) (loop : opcode.isLoop = true)
      (b_eq : argAt code ip 1 = b) (inside : ip + 2 + b ≤ stop)
      (body : Adds same fits code (ip + 2) (ip + 2 + b) 0 d) (agree : same d 0)
      (next : Adds same fits code (ip + 2 + b) stop h h') :
      Adds same fits code ip stop h h'

/-- Two integers are the same number of 32 bits. -/
def SameWord (d e : Int) : Prop := Int32.ofInt d = Int32.ofInt e

/-- An integer is a signed number of 32 bits. -/
def InWord (d : Int) : Prop := -2 ^ 31 ≤ d ∧ d < 2 ^ 31

instance (d : Int) : Decidable (InWord d) := inferInstanceAs (Decidable (_ ∧ _))

/-- The sums of accepted code, of which nothing is known but that they agree as numbers of 32
bits. -/
abbrev AddsWords (code : Array UInt32) : Nat → Nat → Int → Int → Prop :=
  Adds SameWord (fun _ => True) code

/-- The sums of some code, none of which leaves the 32 bits. -/
abbrev AddsInWord (code : Array UInt32) : Nat → Nat → Int → Int → Prop :=
  Adds (fun _ _ => True) InWord code

/-- The sums of code in which every way from one offset to another has the same effect. -/
abbrev AddsUp (code : Array UInt32) : Nat → Nat → Int → Int → Prop :=
  Adds Eq (fun _ => True) code

theorem Opcode.isCondition_of_isLoop (hloop : opcode.isLoop = true) :
    opcode.isCondition = false := by
  cases opcode <;> first | rfl | cases hloop

theorem Opcode.eq_whileNotError (hloop : opcode.isLoop = true) : opcode = .whileNotError := by
  cases opcode <;> first | rfl | cases hloop

theorem Opcode.two_le_operands (hcondition : opcode.isCondition = true) : 2 ≤ opcode.operands := by
  revert hcondition
  cases opcode <;> decide

theorem SameWord.eq (hsame : SameWord d e) (hd : InWord d) (he : InWord e) : d = e := by
  have hint := congrArg Int32.toInt hsame
  rwa [Int32.toInt_ofInt_of_le hd.1 hd.2, Int32.toInt_ofInt_of_le he.1 he.2] at hint

namespace Adds

variable {same : Int → Int → Prop} {fits : Int → Prop}

theorem le (hadds : Adds same fits code ip stop h h') : ip ≤ stop := by
  induction hadds <;> omega

/-- The sums from another height on. -/
theorem from_add (hadds : Adds same (fun _ => True) code ip stop h h') (c : Int) :
    Adds same (fun _ => True) code ip stop (c + h) (c + h') := by
  induction hadds with
  | done => exact .done
  | plain word not_condition not_loop inside _ _ ih =>
    exact .plain word not_condition not_loop inside trivial (by rwa [Int.add_assoc])
  | branch word condition base_eq t_eq f_eq inside held otherwise agree _ _ _ _ ih =>
    exact .branch word condition base_eq t_eq f_eq inside held otherwise agree trivial
      (by rwa [Int.add_assoc])
  | loop word loop b_eq inside body agree _ _ ih =>
    exact .loop word loop b_eq inside body agree ih

/-- Where accepted code makes no sum outside of the 32 bits, both blocks of a condition have exactly
the same effect, and the body of a loop has none. -/
theorem exact (hwords : AddsWords code ip stop h h₁) (hsums : AddsInWord code ip stop h h₂)
    (hfit : InWord h) : h₂ = h₁ ∧ InWord h₁ ∧ AddsUp code ip stop h h₁ := by
  have hzero : InWord 0 := by unfold InWord; omega
  -- The opcode at an offset settles which instruction comes next in both sums.
  induction hwords generalizing h₂ with
  | done =>
    cases hsums with
    | done => exact ⟨rfl, hfit, .done⟩
    | plain _ _ _ inside => omega
    | branch _ _ base_eq _ _ inside => omega
    | loop _ _ _ inside => omega
  | plain word not_condition not_loop inside _ _ ih =>
    cases hsums with
    | done => omega
    | plain word' _ _ _ fit next =>
      obtain rfl := Option.some.inj (word.symm.trans word')
      obtain ⟨rfl, hfit', hnext⟩ := ih next fit
      exact ⟨rfl, hfit', .plain word not_condition not_loop inside trivial hnext⟩
    | branch word' condition =>
      obtain rfl := Option.some.inj (word.symm.trans word')
      exact absurd condition (Bool.not_eq_true _ ▸ not_condition)
    | loop word' loop =>
      obtain rfl := Option.some.inj (word.symm.trans word')
      exact absurd loop (Bool.not_eq_true _ ▸ not_loop)
  | branch word condition base_eq t_eq f_eq inside _ _ agree _ _ ih_held ih_otherwise ih =>
    cases hsums with
    | done => omega
    | plain word' not_condition =>
      obtain rfl := Option.some.inj (word.symm.trans word')
      exact absurd condition (Bool.not_eq_true _ ▸ not_condition)
    | branch word' _ base_eq' t_eq' f_eq' _ held otherwise _ fit next =>
      obtain rfl := Option.some.inj (word.symm.trans word')
      subst base_eq t_eq f_eq base_eq' t_eq' f_eq'
      obtain ⟨rfl, hfit_d, hheld⟩ := ih_held held hzero
      obtain ⟨rfl, hfit_e, hotherwise⟩ := ih_otherwise otherwise hzero
      obtain ⟨rfl, hfit', hnext⟩ := ih next fit
      exact ⟨rfl, hfit', .branch word condition rfl rfl rfl inside hheld hotherwise
        (agree.eq hfit_d hfit_e) trivial hnext⟩
    | loop word' loop =>
      obtain rfl := Option.some.inj (word.symm.trans word')
      exact absurd condition (Bool.not_eq_true _ ▸ Opcode.isCondition_of_isLoop loop)
  | loop word loop b_eq inside _ agree _ ih_body ih =>
    cases hsums with
    | done => omega
    | plain word' _ not_loop =>
      obtain rfl := Option.some.inj (word.symm.trans word')
      exact absurd loop (Bool.not_eq_true _ ▸ not_loop)
    | branch word' condition =>
      obtain rfl := Option.some.inj (word.symm.trans word')
      exact absurd condition (Bool.not_eq_true _ ▸ Opcode.isCondition_of_isLoop loop)
    | loop word' _ b_eq' _ body _ next =>
      subst b_eq b_eq'
      obtain ⟨rfl, hfit_d, hbody⟩ := ih_body body hzero
      obtain ⟨rfl, hfit', hnext⟩ := ih next hfit
      exact ⟨rfl, hfit', .loop word loop rfl inside hbody (agree.eq hfit_d hzero) hnext⟩

end Adds

/-! ## The sums of accepted code -/

namespace StackEffect

variable {offset : Nat} {word : UInt32} {rest words : List UInt32}

/-- What the check did with the first instruction of words that it accepted. -/
theorem effectFrom_cons_eq_ok (hok : effectFrom offset k (word :: rest) = .ok k') :
    ∃ opcode n, Opcode.ofWord? word = some opcode ∧
      Instruction.operandCount? opcode rest = some n ∧ n ≤ rest.length ∧
      ((opcode.isCondition = true ∧ ∃ t f d,
          ((rest.take n).getD (n - 2) 0).toNat = t ∧ ((rest.take n).getD (n - 1) 0).toNat = f ∧
          t + f ≤ (rest.drop n).length ∧ effectFrom 0 0 ((rest.drop n).take t) = .ok d ∧
          effectFrom 0 0 (((rest.drop n).drop t).take f) = .ok d ∧
          effectFrom (offset + 1 + n + t + f) (k + d) ((rest.drop n).drop (t + f)) = .ok k') ∨
        (opcode.isCondition = false ∧ opcode.isLoop = true ∧ ∃ b,
          ((rest.take n).getD (n - 1) 0).toNat = b ∧ b ≤ (rest.drop n).length ∧
          effectFrom 0 0 ((rest.drop n).take b) = .ok 0 ∧
          effectFrom (offset + 1 + n + b) k ((rest.drop n).drop b) = .ok k') ∨
        (opcode.isCondition = false ∧ opcode.isLoop = false ∧
          effectFrom (offset + 1 + n) (k + plain opcode (rest.take n)) (rest.drop n) =
            .ok k')) := by
  rw [effectFrom] at hok
  split at hok
  · cases hok
  rename_i opcode hopcode
  split at hok
  · cases hok
  rename_i n hcount
  split at hok
  · cases hok
  rename_i henough
  refine ⟨opcode, n, hopcode, hcount, by omega, ?_⟩
  dsimp only at hok
  split at hok
  · rename_i hcondition
    split at hok
    · cases hok
    rename_i hinside
    obtain ⟨held, hheld, hok⟩ := bind_eq_ok.mp hok
    obtain ⟨otherwise, hotherwise, hok⟩ := bind_eq_ok.mp hok
    split at hok
    · cases hok
    rename_i hequal
    obtain rfl := not_not.mp hequal
    exact .inl ⟨hcondition, _, _, held, rfl, rfl, by omega, hheld, hotherwise, hok⟩
  · rename_i hcondition
    split at hok
    · rename_i hloop
      split at hok
      · cases hok
      rename_i hinside
      obtain ⟨body, hbody, hok⟩ := bind_eq_ok.mp hok
      split at hok
      · cases hok
      rename_i hstill
      obtain rfl := not_not.mp hstill
      exact .inr (.inl ⟨Bool.not_eq_true _ ▸ hcondition, hloop, _, rfl, by omega, hbody, hok⟩)
    · rename_i hloop
      exact .inr (.inr ⟨Bool.not_eq_true _ ▸ hcondition, Bool.not_eq_true _ ▸ hloop, hok⟩)

/-- An instruction that the check finds whole has the width that a run gives it. -/
theorem width_of_operandCount? (hcount : Instruction.operandCount? opcode rest = some n)
    (hstand : Stand code (ip + 1) rest) : opcode.width (Instruction.argAt code ip) = n := by
  rw [Instruction.operandCount?] at hcount
  rw [Opcode.width]
  split at hcount
  · next hcall =>
    obtain ⟨w, hw, rfl⟩ := Option.map_eq_some_iff.mp hcount
    obtain ⟨hlt, -⟩ := List.getElem?_eq_some_iff.mp hw
    have hparameters := Stand.wordAt ((hstand 2 hlt).trans hw)
    rw [if_pos hcall]
    exact congrArg (opcode.operands + ·) hparameters
  · next hcall =>
    rw [if_neg hcall]
    exact Option.some.inj hcount

theorem operandCount?_of_isCondition (hcondition : opcode.isCondition = true)
    (hcount : Instruction.operandCount? opcode rest = some n) : opcode.operands = n ∧ 2 ≤ n := by
  rw [Instruction.operandCount?, if_neg (by rintro rfl; cases hcondition)] at hcount
  obtain rfl := Option.some.inj hcount
  exact ⟨rfl, Opcode.two_le_operands hcondition⟩

/-- The check accepts the words from one offset to another, and goes from one effect to another. -/
def Accepts (code : Array UInt32) (ip stop : Nat) (k k' : Int32) : Prop :=
  ∃ offset words, Stand code ip words ∧ ip + words.length = stop ∧
    effectFrom offset k words = .ok k'

theorem accepts_take (hstand : Stand code ip words) (hn : n ≤ words.length)
    (hok : effectFrom offset k (words.take n) = .ok k') : Accepts code ip (ip + n) k k' :=
  ⟨offset, _, hstand.take n, by rw [List.length_take_of_le hn], hok⟩

theorem accepts_drop (hstand : Stand code ip words) (hn : n ≤ words.length)
    (hok : effectFrom offset k (words.drop n) = .ok k') :
    Accepts code (ip + n) (ip + words.length) k k' :=
  ⟨offset, _, hstand.drop hn, by rw [List.length_drop]; omega, hok⟩

open Instruction in
/-- What the check accepts from one offset to another: nothing, or an instruction, its blocks and
what is behind it. -/
theorem Accepts.cases (haccepts : Accepts code ip stop k k') :
    (ip = stop ∧ k = k') ∨ ∃ opcode, (code[ip]?).bind Opcode.ofWord? = some opcode ∧
      ((opcode.isCondition = true ∧ ∃ base t f d, ip + 1 + opcode.operands = base ∧
          argAt code ip (opcode.operands - 1) = t ∧ argAt code ip opcode.operands = f ∧
          base + t + f ≤ stop ∧ Accepts code base (base + t) 0 d ∧
          Accepts code (base + t) (base + t + f) 0 d ∧
          Accepts code (base + t + f) stop (k + d) k') ∨
        (opcode.isLoop = true ∧ ∃ b, argAt code ip 1 = b ∧ ip + 2 + b ≤ stop ∧
          Accepts code (ip + 2) (ip + 2 + b) 0 0 ∧ Accepts code (ip + 2 + b) stop k k') ∨
        (opcode.isCondition = false ∧ opcode.isLoop = false ∧
          ip + 1 + opcode.width (argAt code ip) ≤ stop ∧
          Accepts code (ip + 1 + opcode.width (argAt code ip)) stop
            (k + .ofInt (opcode.shift (argAt code ip))) k')) := by
  obtain ⟨offset, words, hstand, rfl, hok⟩ := haccepts
  cases words with
  | nil =>
    rw [effectFrom] at hok
    exact .inl ⟨rfl, Except.ok.inj hok⟩
  | cons word rest =>
    obtain ⟨opcode, n, hopcode, hcount, hn, hcase⟩ := effectFrom_cons_eq_ok hok
    obtain ⟨hfirst, hrest⟩ := Stand.cons.mp hstand
    have hwidth := width_of_operandCount? hcount hrest
    have hafter : Stand code (ip + 1 + n) (rest.drop n) := hrest.drop hn
    -- The check counts operands from the first one on, a run counts words from the opcode on.
    have hoperand : ∀ i < n, ((rest.take n).getD i 0).toNat = argAt code ip (i + 1) :=
      fun i hi => (hrest.take n).spells i (by rw [List.length_take]; omega)
    have hstop : ip + (word :: rest).length = ip + 1 + n + (rest.drop n).length := by
      rw [List.length_cons, List.length_drop]
      omega
    rw [hstop]
    refine .inr ⟨opcode, by rw [hfirst]; exact hopcode, ?_⟩
    generalize rest.drop n = after at hcase hafter
    rcases hcase with ⟨hcondition, t, f, d, rfl, rfl, hinside, hheld, hotherwise, hnext⟩ |
      ⟨-, hloop, b, rfl, hinside, hbody, hnext⟩ | ⟨hcondition, hloop, hnext⟩
    · obtain ⟨hoperands, htwo⟩ := operandCount?_of_isCondition hcondition hcount
      have ht : ((rest.take n).getD (n - 2) 0).toNat = argAt code ip (n - 1) := by
        rw [hoperand _ (by omega), show n - 2 + 1 = n - 1 by omega]
      have hf : ((rest.take n).getD (n - 1) 0).toNat = argAt code ip n := by
        rw [hoperand _ (by omega), Nat.sub_add_cancel (by omega)]
      rw [ht] at hheld
      rw [ht, hf] at hinside hotherwise hnext
      refine .inl ⟨hcondition, _, _, _, d, rfl, rfl, rfl, ?_⟩
      rw [hoperands, Nat.add_assoc (ip + 1 + n)]
      refine ⟨by omega, accepts_take hafter (by omega) hheld, ?_, accepts_drop hafter hinside hnext⟩
      rw [← Nat.add_assoc]
      exact accepts_take (hafter.drop (by omega)) (by rw [List.length_drop]; omega) hotherwise
    · obtain rfl := Opcode.eq_whileNotError hloop
      obtain rfl : n = 1 := (Option.some.inj hcount).symm
      rw [hoperand _ (by omega)] at *
      exact .inr (.inl ⟨hloop, _, rfl, Nat.add_le_add_left hinside _,
        accepts_take hafter hinside hbody, accepts_drop hafter hinside hnext⟩)
    · have hshift : opcode.shift (Instr.arg (rest.take n)) = opcode.shift (argAt code ip) :=
        (Opcode.shift_congr fun i hi => (hoperand i (by rwa [hwidth] at hi)).symm).symm
      rw [plain_eq_shift, hshift] at hnext
      rw [hwidth]
      exact .inr (.inr ⟨hcondition, hloop, Nat.le_add_right _ _, _, after, hafter, rfl, hnext⟩)

/-- Between the ends of accepted words there are sums, whose last one is the effect. -/
theorem Accepts.exists_adds (haccepts : Accepts code ip stop k k') (h : Int) :
    ∃ d, AddsWords code ip stop h (h + d) ∧ k' = k + .ofInt d := by
  -- Blocks and what is behind an instruction have fewer words.
  induction hlen : stop - ip using Nat.strong_induction_on generalizing ip stop k k' h with
  | _ len ih =>
    subst hlen
    obtain ⟨rfl, rfl⟩ | ⟨opcode, hword, hcase⟩ := haccepts.cases
    · refine ⟨0, ?_, (Int32.add_zero k).symm⟩
      rw [Int.add_zero]
      exact .done
    rcases hcase with
      ⟨hcondition, base, t, f, k₁, hbase, ht, hf, hinside, hheld, hotherwise, hnext⟩ |
      ⟨hloop, b, hb, hinside, hbody, hnext⟩ | ⟨hcondition, hloop, hinside, hnext⟩
    · obtain ⟨sum, hsum_held, hd⟩ := ih _ (by omega) hheld 0 rfl
      obtain ⟨sum', hsum_otherwise, hd'⟩ := ih _ (by omega) hotherwise 0 rfl
      obtain ⟨others, hsum, rfl⟩ := ih _ (by omega) hnext (h + sum) rfl
      rw [Int.zero_add] at hsum_held hsum_otherwise
      rw [Int32.zero_add] at hd hd'
      rw [Int.add_assoc] at hsum
      refine ⟨sum + others, .branch hword hcondition hbase ht hf hinside hsum_held hsum_otherwise
        (hd.symm.trans hd') trivial hsum, ?_⟩
      rw [hd, Int32.ofInt_add, Int32.add_assoc]
    · obtain ⟨sum, hsum_body, hzero⟩ := ih _ (by omega) hbody 0 rfl
      obtain ⟨others, hsum, rfl⟩ := ih _ (by omega) hnext h rfl
      rw [Int.zero_add] at hsum_body
      rw [Int32.zero_add] at hzero
      exact ⟨others, .loop hword hloop hb hinside hsum_body hzero.symm hsum, rfl⟩
    · obtain ⟨others, hsum, rfl⟩ := ih _ (by omega) hnext
        (h + opcode.shift (Instruction.argAt code ip)) rfl
      rw [Int.add_assoc] at hsum
      refine ⟨opcode.shift (Instruction.argAt code ip) + others,
        .plain hword hcondition hloop hinside trivial hsum, ?_⟩
      rw [Int32.ofInt_add, Int32.add_assoc]

end StackEffect

/-- Accepted code has sums, up to multiples of 2 ^ 32, from its first word to its last. -/
theorem adds_of_stackEffect (hok : stackEffect code.toList = .ok k) :
    ∃ d, AddsWords code 0 code.size 0 d ∧ k = .ofInt d := by
  have haccepts : StackEffect.Accepts code 0 code.size 0 k :=
    ⟨0, code.toList, fun i _ => by simp, by simp, hok⟩
  obtain ⟨d, hadds, hk⟩ := haccepts.exists_adds 0
  rw [Int.zero_add] at hadds
  exact ⟨d, hadds, hk.trans (Int32.zero_add _)⟩

end PegMachine
