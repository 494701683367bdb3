import Mathlib.Data.ENat.Lattice
import Mathlib.Data.Fin.VecNotation
import Mathlib.Order.FixedPoints
import PegMachine.Proofs.MustConsume

/-!
# Greatest numbers as the least solution of equations

What the rules consume at most solves equations over the natural numbers and infinity. In their
least solution, finding every rule anew from nothing settles one finite number more with each round:
otherwise all finite numbers that are not settled could be one less. So once there were as many
rounds as there are rules only infinite numbers still move, and those are what is given up.
-/

namespace PegMachine

open Grammar

/-! ## Equations -/

/-- The most that a node consumes if the rules consume what is given, given a bound on the depth
below it. Where there is no end to repetitions, their number is infinite. -/
noncomputable def Grammar.mostOf (g : Grammar) (x : Nat → ℕ∞) : Nat → NodeId → ℕ∞
  | 0, _ => 0
  | depth + 1, id =>
    let child := mostOf g x depth
    match g.shape id with
    | .literal value _ => value.length
    | .charClass .. | .any => 1
    | .regex .. => ⊤
    | .epsilon | .semanticAnd _ | .semanticNot _ | .code _ | .simpleAnd _ | .simpleNot _ => 0
    | .named _ e | .action e _ | .labeled _ e | .text e | .optional e => child e
    | .zeroOrMore e | .oneOrMore e => child e * ⊤
    | .range _ (some max) e delimiter =>
      child e * max.toNat + delimiter.elim 0 child * (max.toNat - 1 : Nat)
    | .range _ none e delimiter => (child e + delimiter.elim 0 child) * ⊤
    | .sequence elements => (elements.map child).sum
    | .choice alternatives => (alternatives.map child).foldr max 0
    | .ruleRef name => (g.ruleIndex? name).elim 0 x

/-- What a rule consumes at most, if the rules consume what is given. -/
noncomputable def Grammar.mostOfRule (g : Grammar) (x : Nat → ℕ∞) (r : Rule) : ℕ∞ :=
  g.mostOf x g.depthBound r.expression

/-- What is given is what is found for every rule. -/
def Grammar.SolvesMost (g : Grammar) (x : Nat → ℕ∞) : Prop :=
  ∀ (index : Nat) (r : Rule), g.rules[index]? = some r → g.mostOfRule x r = x index

namespace Most

/-- Numbers that are found side by side, from what is given in several ways, keep a relation between
them if all that the equations are made of does. -/
structure Kept {ι : Type} (P : (ι → ℕ∞) → Prop) : Prop where
  const : ∀ n : ℕ∞, P fun _ => n
  add : ∀ a b, P a → P b → P fun k => a k + b k
  mul : ∀ (a) (n : ℕ∞), P a → P fun k => a k * n
  sup : ∀ a b, P a → P b → P fun k => max (a k) (b k)

theorem Kept.mostOf {ι : Type} {P : (ι → ℕ∞) → Prop} (h : Kept P) {g : Grammar}
    {x : ι → Nat → ℕ∞} (hx : ∀ index, P fun k => x k index) (depth : Nat) (id : NodeId) :
    P fun k => g.mostOf (x k) depth id := by
  induction depth generalizing id with
  | zero => exact h.const 0
  | succ depth ih =>
    have hdelimiter (delimiter : Option NodeId) :
        P fun k => delimiter.elim 0 (g.mostOf (x k) depth) := by
      cases delimiter with
      | none => exact h.const 0
      | some d => exact ih d
    simp only [Grammar.mostOf]
    cases g.shape id
    case named name e => exact ih e
    case action e source => exact ih e
    case labeled label e => exact ih e
    case text e => exact ih e
    case optional e => exact ih e
    case zeroOrMore e => exact h.mul _ _ (ih e)
    case oneOrMore e => exact h.mul _ _ (ih e)
    case range min max e delimiter =>
      cases max with
      | none => exact h.mul _ _ (h.add _ _ (ih e) (hdelimiter delimiter))
      | some max => exact h.add _ _ (h.mul _ _ (ih e)) (h.mul _ _ (hdelimiter delimiter))
    case sequence es =>
      induction es with
      | nil => exact h.const 0
      | cons e es ihes => exact h.add _ _ (ih e) ihes
    case choice es =>
      induction es with
      | nil => exact h.const 0
      | cons e es ihes => exact h.sup _ _ (ih e) ihes
    case ruleRef name =>
      change P fun k => (g.ruleIndex? name).elim 0 (x k)
      cases g.ruleIndex? name with
      | none => exact h.const 0
      | some index => exact hx index
    all_goals exact h.const _

variable {g : Grammar} {x y z : Nat → ℕ∞}

theorem kept_le : Kept fun a : Fin 2 → ℕ∞ => a 0 ≤ a 1 where
  const _ := le_rfl
  add _ _ ha hb := add_le_add ha hb
  mul _ _ ha := mul_le_mul_left ha _
  sup _ _ ha hb := max_le_max ha hb

/-- Rules consume more if the rules that they refer to do. -/
theorem mostOf_mono (h : x ≤ y) (depth : Nat) (id : NodeId) :
    g.mostOf x depth id ≤ g.mostOf y depth id :=
  kept_le.mostOf (x := ![x, y]) h depth id

/-! ## The least solution -/

/-- Every rule is found anew. -/
noncomputable def round (g : Grammar) : (Nat → ℕ∞) →o (Nat → ℕ∞) where
  toFun x index := (g.rules[index]?).elim 0 (g.mostOfRule x)
  monotone' x y h index := by
    dsimp only
    cases g.rules[index]? with
    | none => exact le_rfl
    | some r => exact mostOf_mono h _ _

theorem round_apply {index : Nat} {r : Rule} (hr : g.rules[index]? = some r) :
    round g x index = g.mostOfRule x r := by
  change (g.rules[index]?).elim 0 (g.mostOfRule x) = _
  rw [hr, Option.elim_some]

theorem round_of_none {index : Nat} (hr : g.rules[index]? = none) : round g x index = 0 := by
  change (g.rules[index]?).elim 0 (g.mostOfRule x) = _
  rw [hr, Option.elim_none]

/-- The least solution. -/
noncomputable def least (g : Grammar) : Nat → ℕ∞ := (round g).lfp

theorem round_least (g : Grammar) : round g (least g) = least g := (round g).map_lfp

theorem least_le (h : round g x ≤ x) : least g ≤ x := (round g).lfp_le h

theorem isLeast_least : IsLeast {x | g.SolvesMost x} (least g) := by
  refine ⟨fun index r hr => ?_, fun x hx => least_le fun index => ?_⟩
  · rw [← round_apply hr, round_least]
  · cases hr : g.rules[index]? with
    | none =>
      rw [round_of_none hr]
      exact zero_le
    | some r => rw [round_apply hr, hx index r hr]

/-! ## Rounds from nothing -/

/-- What was found after a number of rounds. -/
noncomputable def rounds (g : Grammar) : Nat → Nat → ℕ∞
  | 0 => 0
  | n + 1 => round g (rounds g n)

theorem rounds_le_succ (g : Grammar) (n : Nat) : rounds g n ≤ rounds g (n + 1) := by
  induction n with
  | zero => exact fun _ => zero_le
  | succ n ih => exact (round g).monotone ih

theorem rounds_mono (g : Grammar) : Monotone (rounds g) :=
  monotone_nat_of_le_succ (rounds_le_succ g)

theorem rounds_le_least (g : Grammar) (n : Nat) : rounds g n ≤ least g := by
  induction n with
  | zero => exact fun _ => zero_le
  | succ n ih => exact ((round g).monotone ih).trans (round_least g).le

section

variable {a a' b b' n : ℕ∞}

theorem eq_of_add_eq_add (ha : a ≤ a') (hb : b ≤ b') (htop : a' + b' ≠ ⊤) (h : a + b = a' + b') :
    a = a' ∧ b = b' := by
  obtain ⟨hatop, hbtop⟩ := WithTop.add_ne_top.mp htop
  lift a' to ℕ using hatop
  lift b' to ℕ using hbtop
  lift a to ℕ using ne_top_of_le_ne_top (ENat.natCast_ne_top _) ha
  lift b to ℕ using ne_top_of_le_ne_top (ENat.natCast_ne_top _) hb
  norm_cast at *
  omega

theorem eq_or_of_mul_eq_mul (ha : a ≤ a') (htop : a' * n ≠ ⊤) (h : a * n = a' * n) :
    n = 0 ∨ a' = 0 ∨ (a' ≠ ⊤ ∧ a = a') := by
  by_cases hn : n = 0
  · exact .inl hn
  by_cases ha' : a' = 0
  · exact .inr (.inl ha')
  have hntop : n ≠ ⊤ := by
    rintro rfl
    exact htop (ENat.mul_top ha')
  have hatop : a' ≠ ⊤ := by
    rintro rfl
    exact htop (ENat.top_mul hn)
  refine .inr (.inr ⟨hatop, ?_⟩)
  lift a' to ℕ using hatop
  lift n to ℕ using hntop
  lift a to ℕ using ne_top_of_le_ne_top (ENat.natCast_ne_top _) ha
  norm_cast at *
  exact Nat.eq_of_mul_eq_mul_right (Nat.pos_of_ne_zero hn) h

theorem eq_of_sub_one_lt (htop : b ≠ ⊤) (hlt : b - 1 < a) (hle : a ≤ b) : a = b := by
  lift b to ℕ using htop
  lift a to ℕ using ne_top_of_le_ne_top (ENat.natCast_ne_top _) hle
  norm_cast at *
  omega

theorem sub_one_lt (htop : b ≠ ⊤) (hlt : a < b) : b - 1 < b := by
  lift b to ℕ using htop
  lift a to ℕ using ne_top_of_lt hlt
  norm_cast at *
  omega

end

/-- Of three numbers that are found side by side the second one is the greatest, and where it is
finite and the first one comes up to it, so does the third one. -/
def Settled (a : Fin 3 → ℕ∞) : Prop :=
  a 0 ≤ a 1 ∧ a 2 ≤ a 1 ∧ (a 1 ≠ ⊤ → a 0 = a 1 → a 2 = a 1)

theorem Settled.max_eq {a b : Fin 3 → ℕ∞} (ha : Settled a) (hb : Settled b) (hle : a 1 ≤ b 1)
    (htop : b 1 ≠ ⊤) (heq : max (a 0) (b 0) = b 1) : max (a 2) (b 2) = b 1 := by
  rcases max_choice (a 0) (b 0) with hmax | hmax
  · have ha' : a 0 = a 1 := le_antisymm ha.1 (hle.trans (heq.symm.trans hmax).le)
    have hsame : a 1 = b 1 := ha'.symm.trans (hmax.symm.trans heq)
    rw [ha.2.2 (hsame ▸ htop) ha', hsame]
    exact max_eq_left hb.2.1
  · rw [hb.2.2 htop (hmax.symm.trans heq)]
    exact max_eq_right (ha.2.1.trans hle)

theorem kept_settled : Kept Settled where
  const _ := ⟨le_rfl, le_rfl, fun _ _ => rfl⟩
  add a b ha hb := by
    refine ⟨add_le_add ha.1 hb.1, add_le_add ha.2.1 hb.2.1, fun htop heq => ?_⟩
    obtain ⟨hatop, hbtop⟩ := WithTop.add_ne_top.mp htop
    obtain ⟨ha', hb'⟩ := eq_of_add_eq_add ha.1 hb.1 htop heq
    exact congrArg₂ _ (ha.2.2 hatop ha') (hb.2.2 hbtop hb')
  mul a n ha := by
    refine ⟨mul_le_mul_left ha.1 _, mul_le_mul_left ha.2.1 _, fun htop heq => ?_⟩
    dsimp only at htop heq ⊢
    rcases eq_or_of_mul_eq_mul ha.1 htop heq with rfl | hzero | ⟨hatop, ha'⟩
    · rw [mul_zero, mul_zero]
    · rw [hzero, nonpos_iff_eq_zero.mp (ha.2.1.trans hzero.le)]
    · rw [ha.2.2 hatop ha']
  sup a b ha hb := by
    refine ⟨max_le_max ha.1 hb.1, max_le_max ha.2.1 hb.2.1, fun htop heq => ?_⟩
    dsimp only at htop heq ⊢
    rcases le_total (a 1) (b 1) with hle | hle
    · rw [max_eq_right hle] at htop heq ⊢
      exact ha.max_eq hb hle htop heq
    · rw [max_eq_left hle] at htop heq ⊢
      rw [max_comm] at heq ⊢
      exact hb.max_eq ha hle htop heq

/-- The number of a rule is finite in the least solution, but not found yet. -/
def Waits (g : Grammar) (n index : Nat) : Prop :=
  least g index ≠ ⊤ ∧ rounds g n index ≠ least g index

/-- The least solution, but one less where a number is not found yet. -/
noncomputable def lowered (g : Grammar) (n index : Nat) : ℕ∞ :=
  open scoped Classical in
  if Waits g n index then least g index - 1 else least g index

theorem lowered_of_waits {n index : Nat} (h : Waits g n index) :
    lowered g n index = least g index - 1 := if_pos h

theorem lowered_of_not_waits {n index : Nat} (h : ¬Waits g n index) :
    lowered g n index = least g index := if_neg h

theorem lowered_le (g : Grammar) (n : Nat) : lowered g n ≤ least g := by
  intro index
  by_cases h : Waits g n index
  · rw [lowered_of_waits h]
    exact tsub_le_self
  · rw [lowered_of_not_waits h]

theorem Waits.lowered_lt {n index : Nat} (h : Waits g n index) :
    lowered g n index < least g index := by
  rw [lowered_of_waits h]
  exact sub_one_lt h.1 (lt_of_le_of_ne (rounds_le_least g n index) h.2)

/-- What is not lowered has been found. -/
theorem rounds_of_lowered {n index : Nat} (htop : least g index ≠ ⊤)
    (h : lowered g n index = least g index) : rounds g n index = least g index := by
  by_contra hne
  exact (Waits.lowered_lt ⟨htop, hne⟩).ne h

/-- Where a rule comes up to a finite number in spite of all that was lowered, the next round finds
that number. -/
theorem rounds_succ_of_round_lowered {n index : Nat} (htop : least g index ≠ ⊤)
    (h : round g (lowered g n) index = least g index) : rounds g (n + 1) index = least g index := by
  have hleast := congrFun (round_least g) index
  cases hr : g.rules[index]? with
  | none =>
    rw [round_of_none hr] at h
    exact (round_of_none hr).trans h
  | some r =>
    have hsettled : Settled fun k => g.mostOfRule (![lowered g n, least g, rounds g n] k) r :=
      kept_settled.mostOf
        (fun i => ⟨lowered_le g n i, rounds_le_least g n i, rounds_of_lowered⟩) _ _
    rw [round_apply hr] at h hleast
    rw [rounds, round_apply hr, ← hleast]
    refine hsettled.2.2 ?_ (h.trans hleast.symm)
    exact fun hinfinite => htop (hleast.symm.trans hinfinite)

/-- As long as some finite number is not found, the next round finds one more. -/
theorem exists_found {n index : Nat} (h : Waits g n index) :
    ∃ i, Waits g n i ∧ ¬Waits g (n + 1) i := by
  -- What was lowered solves nothing, since it is less than the least solution.
  have hnot : ¬round g (lowered g n) ≤ lowered g n :=
    fun hround => absurd (least_le hround index) h.lowered_lt.not_ge
  rw [Pi.le_def, not_forall] at hnot
  obtain ⟨i, hi⟩ := hnot
  have hlt : lowered g n i < round g (lowered g n) i := not_le.mp hi
  have hle : round g (lowered g n) i ≤ least g i :=
    ((round g).monotone (lowered_le g n) i).trans (congrFun (round_least g) i).le
  have hwaits : Waits g n i := by
    by_contra hnot
    rw [lowered_of_not_waits hnot] at hlt
    exact absurd hle hlt.not_ge
  refine ⟨i, hwaits, fun hstill => hstill.2 (rounds_succ_of_round_lowered hwaits.1 ?_)⟩
  rw [lowered_of_waits hwaits] at hlt
  exact eq_of_sub_one_lt hwaits.1 hlt hle

theorem Waits.lt {n index : Nat} (h : Waits g n index) : index < g.rules.length := by
  by_contra hge
  have hr : g.rules[index]? = none := List.getElem?_eq_none (by omega)
  have hzero : least g index = 0 := by rw [← round_least g, round_of_none hr]
  exact h.2 ((nonpos_iff_eq_zero.mp (hzero ▸ rounds_le_least g n index)).trans hzero.symm)

theorem Waits.mono {m n index : Nat} (hle : m ≤ n) (h : Waits g n index) : Waits g m index := by
  refine ⟨h.1, fun heq => h.2 (le_antisymm (rounds_le_least g n index) ?_)⟩
  exact heq ▸ rounds_mono g hle index

/-- All finite numbers are found once there were as many rounds as there are rules. -/
theorem rounds_eq_least {index : Nat} (htop : least g index ≠ ⊤) :
    rounds g g.rules.length index = least g index := by
  classical
  by_contra hne
  have hwaits : Waits g g.rules.length index := ⟨htop, hne⟩
  -- Each round leaves fewer rules that wait, and there are no more rules than rounds.
  let waiting (n : Nat) : Finset Nat := (Finset.range g.rules.length).filter (Waits g n)
  have hcard (n : Nat) (hn : n ≤ g.rules.length + 1) :
      (waiting n).card + n ≤ g.rules.length := by
    induction n with
    | zero => simpa using Finset.card_filter_le (Finset.range g.rules.length) (Waits g 0)
    | succ n ih =>
      obtain ⟨i, hi, hfound⟩ := exists_found (hwaits.mono (Nat.le_of_succ_le_succ hn))
      have hfewer : (waiting (n + 1)).card < (waiting n).card := by
        refine Finset.card_lt_card ((Finset.ssubset_iff_of_subset fun j hj => ?_).mpr ⟨i, ?_, ?_⟩)
        · obtain ⟨hmem, hj⟩ := Finset.mem_filter.mp hj
          exact Finset.mem_filter.mpr ⟨hmem, hj.mono (Nat.le_succ n)⟩
        · exact Finset.mem_filter.mpr ⟨Finset.mem_range.mpr hi.lt, hi⟩
        · exact fun hmem => hfound (Finset.mem_filter.mp hmem).2
      have := ih (by omega)
      omega
  have := hcard (g.rules.length + 1) (Nat.le_refl _)
  omega

end Most

namespace MaxCount

/-- A greatest number as a number that may be infinite. -/
def toENat : MaxCount → ℕ∞
  | .finite n => n
  | .infinite => ⊤

theorem toENat_injective : Function.Injective toENat := by
  rintro (a | _) (b | _) h
  · exact congrArg _ (Nat.cast_injective h)
  · exact absurd h (ENat.natCast_ne_top a)
  · exact absurd h.symm (ENat.natCast_ne_top b)
  · rfl

theorem toENat_le_iff {a b : MaxCount} : a.toENat ≤ b.toENat ↔ a.le b = true := by
  cases a <;> cases b <;> simp [toENat, MaxCount.le]

end MaxCount

namespace Most

/-! ## Numbers that are cut off -/

/-- A finite number is cut off at the limit. -/
noncomputable def cut (a : ℕ∞) : ℕ∞ := if a = ⊤ then ⊤ else min a consumptionLimit

variable {a b : ℕ∞}

@[simp]
theorem cut_top : cut ⊤ = ⊤ := if_pos rfl

@[simp]
theorem cut_natCast (n : ℕ) : cut n = (clampCount n : ℕ) := by
  rw [cut, if_neg (ENat.natCast_ne_top n), clampCount, Nat.mono_cast.map_min]

theorem cut_zero : cut 0 = 0 := cut_natCast 0

theorem cut_le (a : ℕ∞) : cut a ≤ a := by
  induction a with
  | top => exact le_top
  | coe n =>
    rw [cut_natCast]
    exact Nat.cast_le.mpr (Consumption.clampCount_le n)

theorem cut_mono : Monotone cut := by
  intro a b h
  induction b with
  | top => exact le_top.trans cut_top.ge
  | coe n =>
    lift a to ℕ using ne_top_of_le_ne_top (ENat.natCast_ne_top _) h
    rw [cut_natCast, cut_natCast]
    exact Nat.cast_le.mpr (Consumption.clampCount_mono (Nat.cast_le.mp h))

theorem cut_cut (a : ℕ∞) : cut (cut a) = cut a := by
  induction a with
  | top => simp
  | coe n => simp [clampCount]

/-- What stays below the limit when it is cut off was not cut off. -/
theorem le_of_cut_le {n : ℕ} (h : cut a ≤ n) (hn : n < consumptionLimit) : a ≤ n := by
  induction a with
  | top => exact cut_top ▸ h
  | coe m =>
    rw [cut_natCast, Nat.cast_le, clampCount] at h
    rw [Nat.cast_le]
    omega

/-- Numbers may be cut off before they are added. -/
theorem cut_add (a b : ℕ∞) : cut (cut a + cut b) = cut (a + b) := by
  induction a with
  | top => simp
  | coe m =>
    induction b with
    | top => simp
    | coe n =>
      simp only [cut_natCast, ← Nat.cast_add]
      unfold clampCount
      congr 1
      omega

theorem clampCount_mul (m k : ℕ) : clampCount (clampCount m * k) = clampCount (m * k) := by
  rcases Nat.le_total m consumptionLimit with hle | hle
  · rw [show clampCount m = m from Nat.min_eq_left hle]
  · rw [show clampCount m = consumptionLimit from Nat.min_eq_right hle]
    rcases Nat.eq_zero_or_pos k with rfl | hk
    · rfl
    · have hlimit : consumptionLimit ≤ consumptionLimit * k := Nat.le_mul_of_pos_right _ hk
      unfold clampCount
      rw [Nat.min_eq_right hlimit, Nat.min_eq_right (hlimit.trans (Nat.mul_le_mul_right k hle))]

theorem cut_eq_zero_iff : cut a = 0 ↔ a = 0 := by
  induction a with
  | top => simp
  | coe n =>
    rw [cut_natCast, Nat.cast_eq_zero, Nat.cast_eq_zero, clampCount]
    have : 0 < consumptionLimit := by decide
    omega

/-- Numbers may be cut off before they are multiplied. -/
theorem cut_mul (a n : ℕ∞) : cut (cut a * n) = cut (a * n) := by
  induction n with
  | top =>
    by_cases ha : a = 0
    · rw [ha, cut_zero]
    · rw [ENat.mul_top ha, ENat.mul_top (cut_eq_zero_iff.not.mpr ha)]
  | coe k =>
    induction a with
    | top => rw [cut_top]
    | coe m =>
      simp only [cut_natCast, ← Nat.cast_mul, clampCount_mul]

theorem kept_cut : Kept fun a : Fin 2 → ℕ∞ => cut (a 0) = cut (a 1) where
  const _ := rfl
  add a b ha hb := by rw [← cut_add, ha, hb, cut_add]
  mul a n ha := by rw [← cut_mul, ha, cut_mul]
  sup a b ha hb := by rw [cut_mono.map_max, ha, hb, cut_mono.map_max]

/-- What rules consume may be cut off before a rule is found anew from it. -/
theorem cut_mostOf (g : Grammar) (x : Nat → ℕ∞) (depth : Nat) (id : NodeId) :
    cut (g.mostOf (fun index => cut (x index)) depth id) = cut (g.mostOf x depth id) :=
  kept_cut.mostOf (x := ![fun index => cut (x index), x]) (fun index => cut_cut (x index)) depth id

end Most

/-! ## What records say -/

namespace MaxCount

open Most

theorem toENat_add (a b : MaxCount) : (a.add b).toENat = cut (a.toENat + b.toENat) := by
  rcases a with m | _
  · rcases b with n | _
    · simp only [add, toENat, ← Nat.cast_add, cut_natCast]
    · simp [add, toENat]
  · simp [add, toENat]

theorem toENat_times (a : MaxCount) (n : Nat) : (a.times n).toENat = cut (a.toENat * n) := by
  unfold times
  split
  · next hn =>
    rw [hn, Nat.cast_zero, mul_zero, cut_zero]
    rfl
  · next hn =>
    rcases a with m | _
    · simp only [toENat, ← Nat.cast_mul, cut_natCast]
    · simp [toENat, ENat.top_mul (Nat.cast_ne_zero.mpr hn)]

theorem toENat_max (a b : MaxCount) : (a.max b).toENat = Max.max a.toENat b.toENat := by
  unfold MaxCount.max
  split
  · next h => rw [max_eq_right (toENat_le_iff.mpr h)]
  · next h =>
    rw [max_eq_left]
    exact (le_total _ _).resolve_left (toENat_le_iff.not.mpr h)

theorem isPositive_iff {a : MaxCount} : a.isPositive = true ↔ a.toENat ≠ 0 := by
  rcases a with n | _ <;> simp [isPositive, toENat]

/-- What is repeated without an end. -/
theorem toENat_endless {p : Bool} {a : ℕ∞} (h : p = true ↔ a ≠ 0) :
    (if p then infinite else finite 0).toENat = cut (a * ⊤) := by
  split
  · next hp => rw [ENat.mul_top (h.mp hp), cut_top, toENat]
  · next hp =>
    have ha : a = 0 := not_not.mp (h.not.mp hp)
    rw [ha, zero_mul, cut_zero, toENat, Nat.cast_zero]

end MaxCount

namespace Consumption

open Most

section

variable {f : NodeId → Consumption} {most : NodeId → ℕ∞} {es : List NodeId} {c : Consumption}
  {n : ℕ∞}

theorem most_foldl_andThen (hf : ∀ e ∈ es, (f e).max.toENat = cut (most e))
    (hc : c.max.toENat = cut n) :
    ((es.map f).foldl andThen c).max.toENat = cut (n + (es.map most).sum) := by
  induction es generalizing c n with
  | nil => simpa using hc
  | cons e es ih =>
    rw [List.map_cons, List.map_cons, List.sum_cons, ← add_assoc]
    refine ih (fun e' he' => hf e' (List.mem_cons_of_mem _ he')) ?_
    rw [andThen, MaxCount.toENat_add, hc, hf e List.mem_cons_self, cut_add]

theorem most_foldl_orElse (hf : ∀ e ∈ es, (f e).max.toENat = cut (most e))
    (hc : c.max.toENat = cut n) :
    ((es.map f).foldl orElse c).max.toENat = cut (Max.max n ((es.map most).foldr Max.max 0)) := by
  induction es generalizing c n with
  | nil => simpa using hc
  | cons e es ih =>
    rw [List.map_cons, List.map_cons, List.foldr_cons, ← max_assoc]
    refine ih (fun e' he' => hf e' (List.mem_cons_of_mem _ he')) ?_
    rw [orElse, MaxCount.toENat_max, hc, hf e List.mem_cons_self, cut_mono.map_max]

theorem most_ofChoice (hf : ∀ e ∈ es, (f e).max.toENat = cut (most e)) :
    (ofChoice (es.map f)).max.toENat = cut ((es.map most).foldr Max.max 0) := by
  cases es with
  | nil => exact cut_zero.symm
  | cons e es =>
    exact most_foldl_orElse (fun e' he' => hf e' (List.mem_cons_of_mem _ he'))
      (hf e List.mem_cons_self)

theorem most_repeated (hc : c.max.toENat = cut n) : c.repeated.max.toENat = cut (n * ⊤) := by
  rw [repeated]
  refine MaxCount.toENat_endless ?_
  rw [MaxCount.isPositive_iff, hc, Ne, cut_eq_zero_iff]

theorem most_range {e d : Consumption} {a b : ℕ∞} (min : Nat) (max : Option Nat)
    (he : e.max.toENat = cut a) (hd : d.max.toENat = cut b) :
    (range min max e d).max.toENat =
      cut (max.elim ((a + b) * ⊤) fun m => a * m + b * (m - 1 : Nat)) := by
  cases max with
  | none =>
    refine MaxCount.toENat_endless ?_
    rw [Bool.or_eq_true, MaxCount.isPositive_iff, MaxCount.isPositive_iff, he, hd, Ne, Ne, Ne,
      cut_eq_zero_iff, cut_eq_zero_iff, add_eq_zero]
    tauto
  | some m =>
    change ((e.max.times m).add (d.max.times (m - 1))).toENat = _
    rw [MaxCount.toENat_add, MaxCount.toENat_times, MaxCount.toENat_times, cut_add, he, hd,
      Option.elim_some, ← cut_add, cut_mul, cut_mul, cut_add]

end

variable {g : Grammar} {f : Facts} {c : Context}

/-- What the records say that the rules consume at most. -/
def mosts (c : Context) (index : Nat) : ℕ∞ := (c.record index).max.toENat

/-- No record goes beyond the limit. -/
def CutOff (c : Context) : Prop := ∀ index, cut (mosts c index) = mosts c index

/-- What is found for a node is what the equations say, cut off at the limit. -/
theorem CutOff.toENat_ofNode (h : CutOff c) (hc : c.Fits g) (hcounted : g.Counted) (depth : Nat)
    {id : NodeId} (howned : g.Owned id) :
    (ofNode c depth id).max.toENat = cut (g.mostOf (mosts c) depth id) := by
  induction depth generalizing id with
  | zero => exact cut_zero.symm
  | succ depth ih =>
    have hchild (e : NodeId) (he : e ∈ g.children id) := ih (howned.child he)
    rw [children] at hchild
    cases hshape : g.shape id <;> rw [hshape] at hchild
    case ruleRef name =>
      rw [ofNode_ruleRef (by rw [hc.grammar, hshape]), hc.target id name howned hshape]
      simp only [mostOf, hshape]
      cases g.ruleIndex? name with
      | none => exact cut_zero.symm
      | some index => exact (h index).symm
    all_goals simp only [ofNode, mostOf, hc.grammar, hshape]
    case named name e => exact hchild e (by simp [Shape.children, Shape.singleChild?])
    case action e source => exact hchild e (by simp [Shape.children, Shape.singleChild?])
    case labeled label e => exact hchild e (by simp [Shape.children, Shape.singleChild?])
    case text e => exact hchild e (by simp [Shape.children, Shape.singleChild?])
    case optional e => exact hchild e (by simp [Shape.children, Shape.singleChild?])
    case zeroOrMore e =>
      exact most_repeated (hchild e (by simp [Shape.children, Shape.singleChild?]))
    case oneOrMore e =>
      exact most_repeated (hchild e (by simp [Shape.children, Shape.singleChild?]))
    case choice es => exact most_ofChoice hchild
    case sequence es =>
      have hsum := most_foldl_andThen (c := nothing) (n := 0) hchild cut_zero.symm
      rwa [zero_add] at hsum
    case range min max e delimiter =>
      have hitem := hchild e (by simp [Shape.children])
      have hdelimiter : (delimiter.elim nothing (ofNode c depth)).max.toENat =
          cut (delimiter.elim 0 (g.mostOf (mosts c) depth)) := by
        cases delimiter with
        | none => exact cut_zero.symm
        | some d => exact hchild d (by simp [Shape.children])
      have hrange := most_range min.toNat (max.map (·.toNat)) hitem hdelimiter
      cases max <;> exact hrange
    case literal value ignoreCase =>
      have hlength : (UInt32.ofNat value.length).toNat = value.length :=
        Nat.mod_eq_of_lt (hcounted.length_lt hshape)
      have hle : value.length ≤ consumptionLimit :=
        Nat.le_of_lt_succ (hcounted.length_lt hshape)
      rw [hlength, cut_natCast,
        show clampCount value.length = value.length from Nat.min_eq_left hle]
      rfl
    case charClass parts inverted ignoreCase raw => exact (cut_natCast 1).symm
    case any => exact (cut_natCast 1).symm
    case regex value ignoreCase multiLine raw => exact cut_top.symm
    all_goals exact cut_zero.symm

/-! ## Sweeps and rounds -/

/-- The records say at least what was found after so many rounds, and no more than the least
solution. -/
structure Between (g : Grammar) (rounds : Nat) (c : Context) : Prop where
  fits : c.Fits g
  cutOff : CutOff c
  above : ∀ index, cut (Most.rounds g rounds index) ≤ mosts c index
  below : mosts c ≤ least g

variable {n : Nat}

theorem Between.mono {m : Nat} (h : Between g n c) (hle : m ≤ n) : Between g m c :=
  ⟨h.fits, h.cutOff, fun index => (cut_mono (rounds_mono g hle index)).trans (h.above index),
    h.below⟩

theorem mosts_revise {widen : Bool} {p : Rule × Nat} {index : Nat} :
    mosts (revise widen c p) index =
      if index = p.2 ∧ index < c.records.size then
        (settle widen (c.record index) (ofRule c p.1)).max.toENat
      else mosts c index := by
  rw [mosts, record_revise, apply_ite fun record : Consumption => record.max.toENat]
  rfl

section

variable (h : Between g n c) (hcounted : g.Counted) {index : Nat} {r : Rule}
  (hr : g.rules[index]? = some r)

include h hcounted hr

theorem Between.toENat_ofRule : (ofRule c r).max.toENat = cut (g.mostOfRule (mosts c) r) := by
  rw [ofRule, h.fits.grammar]
  exact h.cutOff.toENat_ofNode h.fits hcounted _ ⟨r, List.mem_of_getElem? hr, .refl⟩

/-- What is found anew for a rule is what the next round finds, or more. -/
theorem Between.le_ofRule : cut (Most.rounds g (n + 1) index) ≤ (ofRule c r).max.toENat := by
  rw [h.toENat_ofRule hcounted hr, Most.rounds, round_apply hr, mostOfRule, ← cut_mostOf]
  exact cut_mono (mostOf_mono h.above _ _)

theorem Between.ofRule_le : (ofRule c r).max.toENat ≤ least g index := by
  rw [h.toENat_ofRule hcounted hr, ← round_least g, round_apply hr]
  exact (cut_le _).trans (mostOf_mono h.below _ _)

theorem Between.cut_ofRule : cut (ofRule c r).max.toENat = (ofRule c r).max.toENat := by
  rw [h.toENat_ofRule hcounted hr, cut_cut]

end

/-- Before bounds are given up, a sweep finds as much as a round. -/
theorem Between.sweep (h : Between g n c) (hcounted : g.Counted) :
    Between g (n + 1) (sweep c false) := by
  have hall := sweep_induct false (c := c) (P := fun k c' => Between g n c' ∧
    ∀ i, (i < k ∨ g.rules.length ≤ i) → cut (Most.rounds g (n + 1) i) ≤ mosts c' i) ⟨h, ?_⟩ ?_
  · refine ⟨hall.1.fits, hall.1.cutOff, fun i => hall.2 i ?_, hall.1.below⟩
    rw [h.fits.grammar]
    exact Nat.lt_or_ge i _
  · rintro i (hi | hi)
    · exact absurd hi (Nat.not_lt_zero i)
    · rw [Most.rounds, round_of_none (List.getElem?_eq_none hi), cut_zero]
      exact zero_le
  · rintro c' k r ⟨hc', hdone⟩ hr
    rw [h.fits.grammar] at hr
    have hlt := (List.getElem?_eq_some_iff.mp hr).1
    have hmosts (i : Nat) : mosts (revise false c' (r, k)) i =
        if i = k then (ofRule c' r).max.toENat else mosts c' i := by
      rw [mosts_revise, settle_false, hc'.fits.size]
      refine if_congr ⟨And.left, fun hi => ⟨hi, hi ▸ hlt⟩⟩ rfl rfl
    have hround := hc'.le_ofRule hcounted hr
    refine ⟨⟨hc'.fits.revise _, fun i => ?_, fun i => ?_, fun i => ?_⟩, fun i hi => ?_⟩
    · rw [hmosts]
      split
      · exact hc'.cut_ofRule hcounted hr
      · exact hc'.cutOff i
    · rw [hmosts]
      split
      · next hik => exact hik ▸ (cut_mono (rounds_le_succ g n k)).trans hround
      · exact hc'.above i
    · rw [hmosts]
      split
      · next hik => exact hik ▸ hc'.ofRule_le hcounted hr
      · exact hc'.below i
    · rw [hmosts]
      split
      · next hik => exact hik ▸ hround
      · exact hdone i (by omega)

/-- When bounds are given up, a greatest number is kept or becomes infinite. -/
theorem max_settle_true (current next : Consumption) :
    (settle true current next).max =
      if next.max = current.max then current.max else .infinite := by
  unfold settle
  split
  · next h => rw [if_pos (congrArg Consumption.max h)]
  · rw [if_pos rfl]
    dsimp only
    split
    · assumption
    · rfl

/-- Once all finite numbers are found, only what is infinite in the least solution is given up. -/
theorem Between.settle_eq (h : Between g g.rules.length c) (hcounted : g.Counted) {index : Nat}
    {r : Rule} (hr : g.rules[index]? = some r) (htop : least g index ≠ ⊤) :
    (settle true (c.record index) (ofRule c r)).max = (c.record index).max := by
  have hfound {m : MaxCount} (hcut : cut m.toENat = m.toENat) (hle : m.toENat ≤ least g index)
      (hge : cut (least g index) ≤ m.toENat) : m.toENat = cut (least g index) :=
    le_antisymm (hcut ▸ cut_mono hle) hge
  have hrounds (n : Nat) (hn : g.rules.length ≤ n) : Most.rounds g n index = least g index :=
    le_antisymm (rounds_le_least g n index) (rounds_eq_least htop ▸ rounds_mono g hn index)
  have hcurrent := hfound (h.cutOff index) (h.below index)
    (hrounds _ (Nat.le_refl _) ▸ h.above index)
  have hnext := hfound (h.cut_ofRule hcounted hr) (h.ofRule_le hcounted hr)
    (hrounds _ (Nat.le_succ _) ▸ h.le_ofRule hcounted hr)
  have hsame : (ofRule c r).max = (c.record index).max :=
    MaxCount.toENat_injective (hnext.trans hcurrent.symm)
  rw [max_settle_true, if_pos hsame]

theorem Between.sweep_widen (h : Between g g.rules.length c) (hcounted : g.Counted) :
    Between g g.rules.length (Consumption.sweep c true) := by
  refine sweep_induct true (P := fun _ c => Between g g.rules.length c) h fun c' k r hc' hr => ?_
  rw [h.fits.grammar] at hr
  -- A record is kept or becomes infinite, which it may where the least solution is.
  have hmosts (i : Nat) : mosts (revise true c' (r, k)) i = mosts c' i ∨
      mosts (revise true c' (r, k)) i = ⊤ ∧ least g i = ⊤ := by
    rw [mosts_revise]
    split
    · next hi =>
      obtain ⟨rfl, -⟩ := hi
      by_cases htop : least g i = ⊤
      · rw [max_settle_true]
        split
        · exact .inl rfl
        · exact .inr ⟨rfl, htop⟩
      · rw [hc'.settle_eq hcounted hr htop]
        exact .inl rfl
    · exact .inl rfl
  refine ⟨hc'.fits.revise _, fun i => ?_, fun i => ?_, fun i => ?_⟩
  · rcases hmosts i with hsame | ⟨hgiven, -⟩
    · rw [hsame, hc'.cutOff i]
    · rw [hgiven, cut_top]
  · rcases hmosts i with hsame | ⟨hgiven, -⟩
    · exact hsame ▸ hc'.above i
    · exact hgiven ▸ le_top
  · rcases hmosts i with hsame | ⟨hgiven, htop⟩
    · exact hsame ▸ hc'.below i
    · exact htop ▸ le_top

theorem between_after (hf : f.Links g) (htrees : g.HasTrees) (hcounted : g.Counted) (n : Nat) :
    Between g (Min.min n g.rules.length) (after g f n) := by
  induction n with
  | zero =>
    have hzero (index : Nat) : mosts (after g f 0) index = 0 := by
      rw [mosts, after, record_start]
      rfl
    refine ⟨fits_after hf htrees 0, fun i => ?_, fun i => ?_, fun i => ?_⟩
    · rw [hzero, cut_zero]
    · rw [hzero, Nat.zero_min]
      exact cut_zero.le
    · rw [hzero]
      exact zero_le
  | succ n ih =>
    rw [after]
    by_cases hn : patience g ≤ n
    · have hle : g.rules.length ≤ n := by
        rw [patience] at hn
        omega
      rw [decide_eq_true hn, Nat.min_eq_right (by omega)]
      rw [Nat.min_eq_right hle] at ih
      exact ih.sweep_widen hcounted
    · rw [decide_eq_false hn]
      exact (ih.sweep hcounted).mono (by omega)

theorem between_solve (hf : f.Links g) (htrees : g.HasTrees) (hcounted : g.Counted) :
    Between g 0 (solve g f) := by
  obtain ⟨n, -, hsolve⟩ := exists_endsAfter g f
  exact hsolve ▸ (between_after hf htrees hcounted n).mono (Nat.zero_le _)

/-- In the end the records allow what was found, so they come up to the least solution if nothing
was cut off. -/
theorem least_le_mosts_solve (hf : f.Links g) (htrees : g.HasTrees) (hcounted : g.Counted)
    (hlimit : ∀ index < g.rules.length,
      ((solve g f).record index).max ≠ .finite consumptionLimit) :
    least g ≤ mosts (solve g f) := by
  have hbetween := between_solve hf htrees hcounted
  refine least_le fun index => ?_
  cases hr : g.rules[index]? with
  | none =>
    rw [round_of_none hr]
    exact zero_le
  | some r =>
    have hallows := MaxCount.toENat_le_iff.mpr (max_ofRule_solve g f hr)
    have hcut := hbetween.cutOff index
    have hne := hlimit index (List.getElem?_eq_some_iff.mp hr).1
    rw [hbetween.toENat_ofRule hcounted hr] at hallows
    rw [round_apply hr]
    rw [mosts] at hcut ⊢
    generalize ((solve g f).record index).max = most at *
    cases most with
    | infinite => exact le_top
    | finite n =>
      rw [MaxCount.toENat, cut_natCast, Nat.cast_inj, clampCount] at hcut
      have hn : n ≠ consumptionLimit := fun h => hne (congrArg _ h)
      exact le_of_cut_le hallows (by omega)

/-- The greatest numbers in the end are the least solution of the equations if none of them comes up
to the limit. -/
theorem isLeast_mosts_solve (hf : f.Links g) (htrees : g.HasTrees) (hcounted : g.Counted)
    (hlimit : ∀ index < g.rules.length,
      ((solve g f).record index).max ≠ .finite consumptionLimit) :
    IsLeast {x | g.SolvesMost x} (mosts (solve g f)) := by
  have heq : mosts (solve g f) = least g := le_antisymm (between_solve hf htrees hcounted).below
    (least_le_mosts_solve hf htrees hcounted hlimit)
  rw [heq]
  exact isLeast_least

end Consumption

/-- What a rule consumes at most, by what is known of it. -/
def Facts.mostOfRule (f : Facts) (index : Nat) : ℕ∞ :=
  (f.record? index).elim 0 fun record => record.max.toENat

/-- The sweeps over the rules of a linked grammar end, and end where they should. A least number is
zero where nothing has to be consumed, and only there. The greatest numbers are the least solution
of the equations, if none of them comes up to the limit: what is given up has no end, and what has
none is given up. -/
theorem Facts.analyze_exact (source : GrammarSource) (facts : Facts) (starters : List String) :
    let g := Grammar.ofSource source
    let f := facts.link g starters
    g.Counted →
      (∃ n, Consumption.EndsAfter g f n ∧
        Consumption.solve g f = Consumption.after g f n) ∧
      (∀ id, g.Owned id →
        (((f.analyze g).consumptionOf id).min = 0 ↔ ¬MustConsume g id)) ∧
      ((∀ index record, (f.analyze g).record? index = some record →
          record.max ≠ .finite consumptionLimit) →
        IsLeast {x | g.SolvesMost x} (f.analyze g).mostOfRule) := by
  intro g f hcounted
  have hf : f.Links g := links_link facts g starters
  have htrees : g.HasTrees := ofSource_hasTrees source
  refine ⟨Consumption.exists_endsAfter g f, fun id howned => ?_, fun hlimit => ?_⟩
  · rw [← Consumption.min_consumptionOf_pos_iff hf htrees hcounted howned]
    omega
  · have hmost : (f.analyze g).mostOfRule = Consumption.mosts (Consumption.solve g f) := by
      funext index
      rw [mostOfRule, Consumption.mosts]
      rcases Nat.lt_or_ge index g.rules.length with hlt | hge
      · rw [record?_analyze hf.rules hlt, Option.elim_some]
      · have hrule : (f.analyze g).rules[index]? = none := by
          simp [analyze, hf.rules, hge]
        have hsize := (Consumption.between_solve hf htrees hcounted).fits.size
        rw [record?, hrule, Consumption.Context.record, Array.getD_eq_getD_getElem?,
          Array.getElem?_eq_none (hsize ▸ hge)]
        rfl
    rw [hmost]
    exact Consumption.isLeast_mosts_solve hf htrees hcounted fun index hlt =>
      hlimit index _ (record?_analyze hf.rules hlt)

/-- A grammar of pairs of digits, in parentheses or not. The first two rules refer to rules that
come later, and no rule is called `gap`. -/
def nestedPairs : GrammarSource where
  rules := [
    ⟨"start", .of (.sequence [.of (.ruleRef "nested"), .of (.optional (.of (.ruleRef "gap")))]), [],
      none⟩,
    ⟨"pair", .of (.range 2 (some 2) (.of (.ruleRef "digit")) (some (.of (.literal "," false)))), [],
      none⟩,
    ⟨"digit", .of (.charClass [.range '0' '9'] false false none), [], none⟩,
    ⟨"nested", .of (.choice [
      .of (.sequence [.of (.literal "(" false), .of (.ruleRef "nested"), .of (.literal ")" false)]),
      .of (.ruleRef "pair")]), [], none⟩]

/-- There is no end to parentheses, but a pair takes three characters. The first rule has to consume
something, which its second element need not. -/
theorem nestedPairs_exact :
    let g := Grammar.ofSource nestedPairs
    let f := ({} : Facts).link g ["start"]
    (∃ n, Consumption.EndsAfter g f n ∧ Consumption.solve g f = Consumption.after g f n) ∧
      (MustConsume g 3 ∧ ¬MustConsume g 2) ∧
      IsLeast {x | g.SolvesMost x} (f.analyze g).mostOfRule ∧
      (f.analyze g).mostOfRule 0 = ⊤ ∧ (f.analyze g).mostOfRule 1 = 3 := by
  intro g f
  have hcounted : g.Counted := Grammar.forall_shape trivial (by decide +kernel)
  obtain ⟨hends, hmust, hleast⟩ := Facts.analyze_exact nestedPairs {} ["start"] hcounted
  have hmins : ((f.analyze g).consumptionOf 3).min = 3 ∧
      ((f.analyze g).consumptionOf 2).min = 0 := by decide +kernel
  have hroot : g.Owned 3 := ⟨⟨"start", 3, [], none⟩, by decide +kernel, .refl⟩
  have hchild : g.Owned 2 := hroot.child (by decide +kernel)
  have hmaxes : (f.analyze g).rules.toList.map (·.consumption.map (·.max)) =
      [some .infinite, some (.finite 3), some (.finite 1), some .infinite] := by decide +kernel
  have hmax {index : Nat} {record : Consumption}
      (hrecord : (f.analyze g).record? index = some record) :
      [some MaxCount.infinite, some (.finite 3), some (.finite 1), some .infinite][index]? =
        some (some record.max) := by
    obtain ⟨r, hr, hrecord⟩ := Option.bind_eq_some_iff.mp hrecord
    rw [← hmaxes, List.getElem?_map, Array.getElem?_toList, hr, Option.map_some, hrecord,
      Option.map_some]
  have hmost {index : Nat} {m : MaxCount} (hlt : index < 4)
      (hm : [some MaxCount.infinite, some (.finite 3), some (.finite 1), some .infinite][index]? =
        some (some m)) : (f.analyze g).mostOfRule index = m.toENat := by
    have hrecord := Facts.record?_analyze (Facts.links_link {} g ["start"]).rules hlt
    rw [Facts.mostOfRule, hrecord, Option.elim_some]
    rw [Option.some.inj (Option.some.inj (hm.symm.trans (hmax hrecord)))]
  refine ⟨hends, ⟨?_, (hmust 2 hchild).mp hmins.2⟩, hleast fun index record hrecord => ?_,
    hmost (show 0 < 4 by decide) rfl, hmost (show 1 < 4 by decide) rfl⟩
  · by_contra hnot
    exact absurd (hmins.1.symm.trans ((hmust 3 hroot).mpr hnot)) (by decide)
  · have hmem := List.mem_of_getElem? (hmax hrecord)
    rintro hlimit
    rw [hlimit] at hmem
    revert hmem
    decide

end PegMachine
