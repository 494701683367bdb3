import Mathlib.Order.Nat
import PegMachine.Analysis.Consumption

/-!
# Sweeping over the rules

Each sweep finds the records of the rules anew, one after the other, from those found so far. The
least numbers of characters never fall on the way, and no record ever promises more than what its
rule is found to consume: finding a record anew from greater ones gives a greater one.
-/

namespace PegMachine

namespace Consumption

theorem clampCount_mono {m n : Nat} (h : m ≤ n) : clampCount m ≤ clampCount n :=
  Nat.le_min.mpr ⟨(Nat.min_le_left _ _).trans h, Nat.min_le_right _ _⟩

theorem clampCount_le (n : Nat) : clampCount n ≤ n := Nat.min_le_left _ _

theorem clampCount_pos {n : Nat} (h : 0 < clampCount n) : 0 < n := h.trans_le (clampCount_le n)

/-! ## Least numbers of composite expressions -/

section

variable {f f' : NodeId → Consumption}

theorem min_foldl_andThen_mono (hf : ∀ e, (f e).min ≤ (f' e).min) (es : List NodeId)
    {c c' : Consumption} (hc : c.min ≤ c'.min) :
    ((es.map f).foldl andThen c).min ≤ ((es.map f').foldl andThen c').min := by
  induction es generalizing c c' with
  | nil => exact hc
  | cons e es ih => exact ih (clampCount_mono (Nat.add_le_add hc (hf e)))

theorem min_foldl_orElse_mono (hf : ∀ e, (f e).min ≤ (f' e).min) (es : List NodeId)
    {c c' : Consumption} (hc : c.min ≤ c'.min) :
    ((es.map f).foldl orElse c).min ≤ ((es.map f').foldl orElse c').min := by
  induction es generalizing c c' with
  | nil => exact hc
  | cons e es ih =>
    exact ih (Nat.le_min.mpr ⟨(Nat.min_le_left _ _).trans hc, (Nat.min_le_right _ _).trans (hf e)⟩)

theorem min_ofChoice_mono (hf : ∀ e, (f e).min ≤ (f' e).min) (es : List NodeId) :
    (ofChoice (es.map f)).min ≤ (ofChoice (es.map f')).min := by
  cases es with
  | nil => exact Nat.le_refl _
  | cons e es => exact min_foldl_orElse_mono hf es (hf e)

theorem min_range_mono {min : Nat} {max : Option Nat} {e e' d d' : Consumption}
    (he : e.min ≤ e'.min) (hd : d.min ≤ d'.min) :
    (range min max e d).min ≤ (range min max e' d').min := by
  have hitems : clampCount (e.min * min) ≤ clampCount (e'.min * min) :=
    clampCount_mono (Nat.mul_le_mul_right _ he)
  have hdelimiters : clampCount ((min - 1) * d.min) ≤ clampCount ((min - 1) * d'.min) :=
    clampCount_mono (Nat.mul_le_mul_left _ hd)
  unfold range
  dsimp only
  split
  · exact clampCount_mono (Nat.add_le_add hitems hdelimiters)
  · exact hitems

/-- One of the elements of a sequence consumes something if the sequence does. -/
theorem exists_of_min_foldl_andThen {es : List NodeId} {c : Consumption}
    (h : 0 < ((es.map f).foldl andThen c).min) : 0 < c.min ∨ ∃ e ∈ es, 0 < (f e).min := by
  induction es generalizing c with
  | nil => exact .inl h
  | cons e es ih =>
    rcases ih h with hboth | ⟨e', he', hpos⟩
    · have hsum : 0 < c.min + (f e).min := clampCount_pos hboth
      rcases Nat.eq_zero_or_pos c.min with hzero | hpos
      · exact .inr ⟨e, List.mem_cons_self, by omega⟩
      · exact .inl hpos
    · exact .inr ⟨e', List.mem_cons_of_mem _ he', hpos⟩

theorem exists_of_min_ofSequence {es : List NodeId} (h : 0 < (ofSequence (es.map f)).min) :
    ∃ e ∈ es, 0 < (f e).min :=
  (exists_of_min_foldl_andThen h).resolve_left (Nat.lt_irrefl 0)

/-- All alternatives consume at least as much as the choice. -/
theorem le_of_min_foldl_orElse {es : List NodeId} {c : Consumption} {n : Nat}
    (h : n ≤ ((es.map f).foldl orElse c).min) : n ≤ c.min ∧ ∀ e ∈ es, n ≤ (f e).min := by
  induction es generalizing c with
  | nil => exact ⟨h, nofun⟩
  | cons e es ih =>
    obtain ⟨hboth, hes⟩ := ih h
    have hboth : n ≤ Nat.min c.min (f e).min := hboth
    obtain ⟨hc, he⟩ := Nat.le_min.mp hboth
    refine ⟨hc, fun e' he' => ?_⟩
    rcases List.mem_cons.mp he' with rfl | he'
    · exact he
    · exact hes e' he'

theorem le_of_min_ofChoice {es : List NodeId} {n : Nat} (h : n ≤ (ofChoice (es.map f)).min) :
    ∀ e ∈ es, n ≤ (f e).min := by
  cases es with
  | nil => exact nofun
  | cons e es =>
    obtain ⟨he, hes⟩ := le_of_min_foldl_orElse h
    intro e' he'
    rcases List.mem_cons.mp he' with rfl | he'
    · exact he
    · exact hes e' he'

theorem pos_of_min_range {min : Nat} {max : Option Nat} {e d : Consumption}
    (h : 0 < (range min max e d).min) : (0 < min ∧ 0 < e.min) ∨ (2 ≤ min ∧ 0 < d.min) := by
  have hitems (hpos : 0 < clampCount (e.min * min)) : 0 < min ∧ 0 < e.min := by
    have hproduct := clampCount_pos hpos
    exact ⟨Nat.pos_of_mul_pos_left hproduct, Nat.pos_of_mul_pos_right hproduct⟩
  unfold range at h
  dsimp only at h
  split at h
  · next hmin =>
    have hsum := clampCount_pos h
    rcases Nat.eq_zero_or_pos (clampCount (e.min * min)) with hzero | hpos
    · rw [hzero, Nat.zero_add] at hsum
      exact .inr ⟨hmin, Nat.pos_of_mul_pos_left (clampCount_pos hsum)⟩
    · exact .inl (hitems hpos)
  · exact .inl (hitems h)

end

/-! ## Records that rise -/

namespace Context

/-- The record of a rule. -/
def record (c : Context) (index : Nat) : Consumption := c.records.getD index nothing

/-- A context goes on to another one, where least numbers are no less. -/
structure Rises (c c' : Context) : Prop where
  grammar : c'.grammar = c.grammar
  emptyRegex : c'.emptyRegex = c.emptyRegex
  targets : c'.targets = c.targets
  size : c'.records.size = c.records.size
  min : ∀ index, (c.record index).min ≤ (c'.record index).min

theorem Rises.refl (c : Context) : c.Rises c := ⟨rfl, rfl, rfl, rfl, fun _ => Nat.le_refl _⟩

theorem Rises.trans {c c' c'' : Context} (h : c.Rises c') (h' : c'.Rises c'') : c.Rises c'' :=
  ⟨h'.grammar.trans h.grammar, h'.emptyRegex.trans h.emptyRegex, h'.targets.trans h.targets,
    h'.size.trans h.size, fun index => (h.min index).trans (h'.min index)⟩

end Context

variable {c c' : Context}

theorem ofNode_ruleRef {depth : Nat} {id : NodeId} {name : String}
    (h : c.grammar.shape id = .ruleRef name) :
    ofNode c (depth + 1) id = (c.targets[id]?.join.map c.record).getD nothing := by
  simp only [ofNode, h]
  cases htarget : c.targets[id]?.join with
  | none => rfl
  | some target => simp [Context.record, Array.getD_eq_getD_getElem?]

/-- More is found out from records that are no less, and by looking deeper. -/
theorem min_ofNode_mono (h : c.Rises c') {depth depth' : Nat} (hle : depth ≤ depth') (id : NodeId) :
    (ofNode c depth id).min ≤ (ofNode c' depth' id).min := by
  induction depth generalizing depth' id with
  | zero => exact Nat.zero_le _
  | succ depth ih =>
    cases depth' with
    | zero => cases hle
    | succ depth' =>
      have hchild : ∀ e, (ofNode c depth e).min ≤ (ofNode c' depth' e).min :=
        fun e => ih (Nat.le_of_succ_le_succ hle) e
      cases hshape : c.grammar.shape id
      case ruleRef name =>
        have hshape' : c'.grammar.shape id = .ruleRef name := by rw [h.grammar, hshape]
        rw [ofNode_ruleRef hshape, ofNode_ruleRef hshape', h.targets]
        cases c.targets[id]?.join with
        | none => exact Nat.le_refl _
        | some target => exact h.min target
      all_goals simp only [ofNode, h.grammar, h.emptyRegex, hshape]
      case named name e => exact hchild e
      case action e source => exact hchild e
      case labeled label e => exact hchild e
      case text e => exact hchild e
      case oneOrMore e => exact hchild e
      case choice es => exact min_ofChoice_mono hchild es
      case sequence es => exact min_foldl_andThen_mono hchild es (Nat.le_refl _)
      case range min max e delimiter =>
        refine min_range_mono (hchild e) ?_
        cases delimiter with
        | none => exact Nat.le_refl _
        | some d => exact hchild d
      all_goals exact Nat.le_refl _

/-- No record promises more than what its rule is found to consume. -/
def Rising (c : Context) : Prop :=
  ∀ (index : Nat) (r : Rule), c.grammar.rules[index]? = some r →
    (c.record index).min ≤ (ofRule c r).min

/-! ## Finding records anew -/

/-- Find the record of one rule anew. -/
def revise (widen : Bool) (c : Context) (p : Rule × Nat) : Context :=
  { c with records := c.records.setIfInBounds p.2 (settle widen (c.record p.2) (ofRule c p.1)) }

theorem sweep_eq (c : Context) (widen : Bool) :
    sweep c widen = c.grammar.rules.zipIdx.foldl (revise widen) c := rfl

theorem record_revise {widen : Bool} {p : Rule × Nat} {index : Nat} :
    (revise widen c p).record index =
      if index = p.2 ∧ index < c.records.size then
        settle widen (c.record index) (ofRule c p.1)
      else c.record index := by
  simp only [Context.record, revise, Array.getD_eq_getD_getElem?, Array.getElem?_setIfInBounds]
  by_cases hindex : p.2 = index
  · subst hindex
    by_cases hlt : p.2 < c.records.size <;> simp [hlt]
  · have hindex' : ¬index = p.2 := fun h => hindex h.symm
    simp [hindex, hindex']

/-- The least number of characters does not fall, and comes at most to what was found. -/
theorem min_settle {widen : Bool} {current next : Consumption} (h : current.min ≤ next.min) :
    current.min ≤ (settle widen current next).min ∧ (settle widen current next).min ≤ next.min := by
  unfold settle
  split
  · exact ⟨Nat.le_refl _, h⟩
  · split
    · exact ⟨Nat.le_refl _, h⟩
    · exact ⟨h, Nat.le_refl _⟩

theorem Rising.rises_revise (h : Rising c) (widen : Bool) {r : Rule} {index : Nat}
    (hr : c.grammar.rules[index]? = some r) : c.Rises (revise widen c (r, index)) := by
  refine ⟨rfl, rfl, rfl, Array.size_setIfInBounds, fun i => ?_⟩
  rw [record_revise]
  split
  · next hi =>
    obtain ⟨rfl, -⟩ := hi
    exact (min_settle (h _ r hr)).1
  · exact Nat.le_refl _

theorem Rising.revise (h : Rising c) (widen : Bool) {r : Rule} {index : Nat}
    (hr : c.grammar.rules[index]? = some r) : Rising (revise widen c (r, index)) := by
  intro i r' hr'
  -- What is found for any rule rises with the records.
  have hmono := min_ofNode_mono (h.rises_revise widen hr) (Nat.le_refl c.grammar.depthBound)
  rw [record_revise]
  split
  · next hi =>
    obtain ⟨rfl, -⟩ := hi
    obtain rfl : r' = r := Option.some.inj (hr'.symm.trans hr)
    exact (min_settle (h _ _ hr)).2.trans (hmono _)
  · exact (h i r' hr').trans (hmono _)

theorem Rising.sweep (h : Rising c) (widen : Bool) :
    Rising (sweep c widen) ∧ c.Rises (sweep c widen) := by
  have hall (ps : List (Rule × Nat)) (c : Context) (h : Rising c)
      (hps : ∀ p ∈ ps, c.grammar.rules[p.2]? = some p.1) :
      Rising (ps.foldl (Consumption.revise widen) c) ∧
        c.Rises (ps.foldl (Consumption.revise widen) c) := by
    induction ps generalizing c with
    | nil => exact ⟨h, .refl c⟩
    | cons p ps ih =>
      have hp := hps p List.mem_cons_self
      obtain ⟨hrising, hrises⟩ :=
        ih _ (h.revise widen hp) fun q hq => hps q (List.mem_cons_of_mem _ hq)
      exact ⟨hrising, (h.rises_revise widen hp).trans hrises⟩
  refine hall _ c h fun p hp => ?_
  exact List.mk_mem_zipIdx_iff_getElem?.mp hp

theorem Rising.sweeps (h : Rising c) (done fuel : Nat) :
    Rising (sweeps c done fuel) ∧ c.Rises (sweeps c done fuel) := by
  induction fuel generalizing c done with
  | zero => exact ⟨h, .refl c⟩
  | succ fuel ih =>
    simp only [Consumption.sweeps]
    split
    · exact ⟨h, .refl c⟩
    · obtain ⟨hsweep, hrises⟩ := h.sweep (decide (patience c.grammar ≤ done))
      obtain ⟨hrising, hrises'⟩ := ih hsweep (done + 1)
      exact ⟨hrising, hrises.trans hrises'⟩

theorem rising_start (g : Grammar) (f : Facts) : Rising (start g f) := by
  intro index r _
  have hrecord : (start g f).record index = nothing := by
    simp only [Context.record, start, Array.getD_eq_getD_getElem?, Array.getElem?_replicate]
    split <;> rfl
  rw [hrecord]
  exact Nat.zero_le _

/-- The records in the end do not promise more than what the rules are found to consume. -/
theorem rising_solve (g : Grammar) (f : Facts) : Rising (solve g f) :=
  ((rising_start g f).sweeps _ _).1

/-- What the records are found for stays the same. -/
theorem rises_solve (g : Grammar) (f : Facts) : (start g f).Rises (solve g f) :=
  ((rising_start g f).sweeps _ _).2

end Consumption

end PegMachine
