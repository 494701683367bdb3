import PegMachine.Proofs.Movement
import PegMachine.Proofs.Records
import PegMachine.Proofs.Terminals

/-!
# Consumption bounds languages

What is found about a node allows every number of characters that the node may take, provided that
the records of rules do so for what rules may take. Numbers are cut off at the limit, which no input
here goes beyond.
-/

namespace PegMachine

namespace MaxCount

variable {a b : MaxCount} {k k' : Nat}

theorem finite_le_iff : (finite k).le a = true ↔ ∀ n, a = .finite n → k ≤ n := by
  cases a <;> simp [le]

theorem finite_le_add (ha : (finite k).le a = true) (hb : (finite k').le b = true)
    (hlimit : k + k' ≤ consumptionLimit) : (finite (k + k')).le (a.add b) = true := by
  rw [finite_le_iff] at ha hb ⊢
  intro n hn
  cases a with
  | infinite => cases hn
  | finite m =>
    cases b with
    | infinite => cases hn
    | finite m' =>
      cases hn
      have := ha m rfl
      have := hb m' rfl
      exact Nat.le_min.mpr ⟨by omega, hlimit⟩

theorem finite_le_max (h : (finite k).le a = true ∨ (finite k).le b = true) :
    (finite k).le (a.max b) = true := by
  simp only [finite_le_iff] at h ⊢
  intro n hn
  unfold max at hn
  cases a with
  | infinite =>
    cases b with
    | infinite => cases hn
    | finite m => cases hn
  | finite m =>
    cases b with
    | infinite => cases hn
    | finite m' =>
      simp only [le, decide_eq_true_eq, finite.injEq, forall_eq'] at h hn
      split at hn
      · cases hn
        omega
      · cases hn
        omega

end MaxCount

theorem clampCount_le_of_le {n k : Nat} (h : n ≤ k) : clampCount n ≤ k :=
  (Nat.min_le_left _ _).trans h

namespace Consumption

/-! ## Numbers of characters -/

/-- A record allows a number of characters. -/
structure Admits (c : Consumption) (k : Nat) : Prop where
  min_le : c.min ≤ k
  le_max : (MaxCount.finite k).le c.max = true

variable {c e d : Consumption} {k k' m n : Nat}

theorem admits_exactly (n : Nat) (first : FirstSet) : (exactly n first).Admits n :=
  ⟨Nat.le_refl n, MaxCount.finite_le_iff.mpr fun _ h => by cases h; exact Nat.le_refl n⟩

theorem admits_nothing : nothing.Admits 0 := admits_exactly 0 {}

theorem Admits.optional (h : c.Admits k) : c.optional.Admits k := ⟨Nat.zero_le k, h.le_max⟩

theorem admits_optional (c : Consumption) : c.optional.Admits 0 :=
  ⟨Nat.le_refl 0, MaxCount.finite_le_iff.mpr fun _ _ => Nat.zero_le _⟩

theorem Admits.andThen (h : c.Admits k) (h' : e.Admits k') (hlimit : k + k' ≤ consumptionLimit) :
    (c.andThen e).Admits (k + k') :=
  ⟨clampCount_le_of_le (Nat.add_le_add h.min_le h'.min_le),
    MaxCount.finite_le_add h.le_max h'.le_max hlimit⟩

theorem Admits.orElse_left (h : c.Admits k) (e : Consumption) : (c.orElse e).Admits k :=
  ⟨(Nat.min_le_left _ _).trans h.min_le, MaxCount.finite_le_max (.inl h.le_max)⟩

theorem Admits.orElse_right (c : Consumption) (h : e.Admits k) : (c.orElse e).Admits k :=
  ⟨(Nat.min_le_right _ _).trans h.min_le, MaxCount.finite_le_max (.inr h.le_max)⟩

/-- A choice allows what an alternative allows. -/
theorem admits_ofChoice {es : List Consumption} (he : e ∈ es) (h : e.Admits k) :
    (ofChoice es).Admits k := by
  have hacc (rest : List Consumption) (c : Consumption) (h : c.Admits k ∨ e ∈ rest ∧ e.Admits k) :
      (rest.foldl orElse c).Admits k := by
    induction rest generalizing c with
    | nil =>
      rcases h with h | ⟨h, -⟩
      · exact h
      · cases h
    | cons first rest ih =>
      refine ih _ ?_
      rcases h with h | ⟨hmem, h⟩
      · exact .inl (h.orElse_left first)
      · rcases List.mem_cons.mp hmem with rfl | hmem
        · exact .inl (.orElse_right c h)
        · exact .inr ⟨hmem, h⟩
  cases es with
  | nil => cases he
  | cons first rest =>
    rcases List.mem_cons.mp he with rfl | he
    · exact hacc rest _ (.inl h)
    · exact hacc rest first (.inr ⟨he, h⟩)

/-! ### Repetitions -/

/-- A record allows a number of characters for some repetitions in all. -/
structure Repeats (c : Consumption) (n k : Nat) : Prop where
  min_le : n * c.min ≤ k
  zero : n = 0 → k = 0
  le_max : ∀ m, c.max = .finite m → k ≤ n * m

theorem repeats_zero (c : Consumption) : c.Repeats 0 0 :=
  ⟨by simp, fun _ => rfl, fun _ _ => Nat.zero_le _⟩

theorem Repeats.succ (h : c.Repeats n k) (h' : c.Admits k') : c.Repeats (n + 1) (k + k') := by
  refine ⟨?_, nofun, fun m hm => ?_⟩
  · rw [Nat.succ_mul]
    exact Nat.add_le_add h.min_le h'.min_le
  · rw [Nat.succ_mul]
    exact Nat.add_le_add (h.le_max m hm) (MaxCount.finite_le_iff.mp h'.le_max m hm)

theorem Repeats.after (h : c.Repeats n k') (h' : c.Admits k) : c.Repeats (n + 1) (k + k') := by
  rw [Nat.add_comm k k']
  exact h.succ h'

/-- Bounds on any number of repetitions. -/
theorem Repeats.repeated_le_max (h : c.Repeats n k) :
    (MaxCount.finite k).le c.repeated.max = true := by
  refine MaxCount.finite_le_iff.mpr fun m hm => ?_
  simp only [repeated, MaxCount.isPositive, bne_iff_ne, ne_eq, ite_not] at hm
  split at hm
  · next hzero =>
    have := h.le_max 0 hzero
    omega
  · cases hm

theorem Repeats.repeated (h : c.Repeats (n + 1) k) : c.repeated.Admits k := by
  refine ⟨?_, h.repeated_le_max⟩
  have hmin := h.min_le
  rw [Nat.succ_mul] at hmin
  exact (Nat.le_add_left _ _).trans hmin

theorem Repeats.optional (h : c.Repeats n k) : c.repeated.optional.Admits k :=
  ⟨Nat.zero_le k, h.repeated_le_max⟩

theorem Repeats.le_times (h : c.Repeats n k) (hnm : n ≤ m) (hlimit : k ≤ consumptionLimit) :
    (MaxCount.finite k).le (c.max.times m) = true := by
  refine MaxCount.finite_le_iff.mpr fun a ha => ?_
  unfold MaxCount.times at ha
  split at ha
  · next hzero =>
    have := h.zero (by omega)
    omega
  · split at ha
    · next b hb =>
      cases ha
      have hle := h.le_max b hb
      have hmul : n * b ≤ b * m := by
        rw [Nat.mul_comm b m]
        exact Nat.mul_le_mul_right b hnm
      exact Nat.le_min.mpr ⟨hle.trans hmul, hlimit⟩
    · cases ha

/-- A range allows some items with delimiters between them. -/
theorem Repeats.range (h : e.Repeats (n + 1) k) (h' : d.Repeats n k') {min : Nat}
    {max : Option Nat} (hmin : min ≤ n + 1) (hmax : ∀ m ∈ max, n + 1 ≤ m)
    (hlimit : k + k' ≤ consumptionLimit) : (range min max e d).Admits (k + k') := by
  refine ⟨?_, ?_⟩
  · have hitems : e.min * min ≤ k := by
      rw [Nat.mul_comm]
      exact (Nat.mul_le_mul_right e.min hmin).trans h.min_le
    have hdelimiters : (min - 1) * d.min ≤ k' :=
      (Nat.mul_le_mul_right d.min (by omega)).trans h'.min_le
    simp only [Consumption.range]
    split
    · exact clampCount_le_of_le
        (Nat.add_le_add (clampCount_le_of_le hitems) (clampCount_le_of_le hdelimiters))
    · exact (clampCount_le_of_le hitems).trans (Nat.le_add_right _ _)
  · cases max with
    | some m =>
      have hm := hmax m rfl
      exact MaxCount.finite_le_add (h.le_times hm (by omega)) (h'.le_times (by omega) (by omega))
        hlimit
    | none =>
      simp only [Consumption.range]
      split
      · exact MaxCount.finite_le_iff.mpr nofun
      · next hnone =>
        simp only [MaxCount.isPositive, Bool.or_eq_true, bne_iff_ne, not_or, ne_eq,
          Decidable.not_not] at hnone
        have := h.le_max 0 hnone.1
        have := h'.le_max 0 hnone.2
        exact MaxCount.finite_le_iff.mpr fun a ha => by cases ha; omega

/-- A range that may be empty allows nothing. -/
theorem admits_range (max : Option Nat) (e d : Consumption) : (range 0 max e d).Admits 0 :=
  ⟨by simp [range, clampCount], MaxCount.finite_le_iff.mpr fun _ _ => Nat.zero_le _⟩

end Consumption

namespace Peg

open Peg.Language

variable {input : Input}

/-! ## Languages -/

theorem Language.Takes.within {L : Language} {K : Nat → Prop} (h : L.Takes input K)
    (hinput : input.chars.length ≤ consumptionLimit) :
    L.Takes input fun k => K k ∧ k ≤ consumptionLimit := by
  intro a b ha hab
  obtain ⟨text, hspans, hk⟩ := h a b ha hab
  have ⟨_, hrest, _⟩ := hspans
  obtain ⟨before, hchars, -⟩ := Input.rest?_eq_some.mp hrest
  refine ⟨text, hspans, hk, hinput.trans' ?_⟩
  rw [hchars, List.length_append, List.length_append]
  omega

theorem takes_repeated {L : Language} {c : Consumption} (h : L.Takes input c.Admits) (n : Nat) :
    (L.power n).Takes input (c.Repeats n) :=
  h.power (Consumption.repeats_zero c) (fun _ _ _ hk hk' => hk.succ hk') n

variable (hinput : input.chars.length ≤ consumptionLimit)

include hinput

/-- Items in a row take what a sequence allows. -/
theorem takes_sequence {node : NodeId → Language} {f : NodeId → Consumption} {es : List NodeId}
    (hnode : ∀ e ∈ es, (node e).Takes input (f e).Admits) :
    (ofSequence (es.map node)).Takes input (Consumption.ofSequence (es.map f)).Admits := by
  suffices hacc : (ofSequence (es.map node)).Takes input fun k =>
      ∀ (c : Consumption) (k₀ : Nat), c.Admits k₀ → k₀ + k ≤ consumptionLimit →
        ((es.map f).foldl Consumption.andThen c).Admits (k₀ + k) by
    refine (hacc.within hinput).weaken fun k ⟨hk, hlimit⟩ => ?_
    have hadmits := hk .nothing 0 Consumption.admits_nothing
    rw [Nat.zero_add] at hadmits
    exact hadmits hlimit
  induction es with
  | nil =>
    refine takes_eq.weaken ?_
    rintro _ rfl c k₀ h -
    exact h
  | cons e es ih =>
    refine ((hnode e List.mem_cons_self).andThen
      (ih fun e' he' => hnode e' (List.mem_cons_of_mem _ he'))).weaken ?_
    rintro _ ⟨k, k', hk, hk', rfl⟩ c k₀ h hlimit
    rw [← Nat.add_assoc] at hlimit ⊢
    exact hk' _ _ (h.andThen hk (by omega)) hlimit

theorem takes_range {item further : Language} {e d : Consumption} {min : UInt32}
    {max : Option UInt32} (hne : ¬(max = some 0 ∧ min = 0)) (hle : ∀ m ∈ max, min ≤ m)
    (hitem : item.Takes input e.Admits)
    (hfurther : further.Takes input fun k => ∃ kd ke, d.Admits kd ∧ e.Admits ke ∧ k = kd + ke) :
    (ofRange min max item further).Takes input
      (Consumption.range min.toNat (max.map (·.toNat)) e d).Admits := by
  rintro a b ha (⟨rfl, rfl⟩ | ⟨n, hitems, hmin, hmax⟩)
  · obtain ⟨text, hspans, hk⟩ := takes_eq a a ha rfl
    refine ⟨text, hspans, ?_⟩
    rw [hk]
    exact Consumption.admits_range _ _ _
  · -- Delimiters and items are counted apart.
    have hmany := hfurther.power
      (J := fun n k => ∃ kd ke, d.Repeats n kd ∧ e.Repeats n ke ∧ k = kd + ke)
      ⟨0, 0, Consumption.repeats_zero d, Consumption.repeats_zero e, rfl⟩ (fun n k k' h h' => by
        obtain ⟨kd, ke, hd, he, rfl⟩ := h
        obtain ⟨kd', ke', hd', he', rfl⟩ := h'
        exact ⟨kd + kd', ke + ke', hd.succ hd', he.succ he', by omega⟩) n
    obtain ⟨text, hspans, ⟨k, k', hk, ⟨kd, ke, hd, he, rfl⟩, hsum⟩, hlimit⟩ :=
      ((hitem.andThen hmany).within hinput) a b ha hitems
    have hbound : ∀ m ∈ max.map (·.toNat), n + 1 ≤ m := by
      intro _ hmap
      obtain ⟨m, hm, rfl⟩ := Option.map_eq_some_iff.mp hmap
      rcases hmax with rfl | hmax
      · -- A bound of zero would leave nothing to look for.
        by_contra hzero
        have hmzero : m = 0 := UInt32.toNat_inj.mp (by
          have := UInt32.toNat_zero
          omega)
        subst hmzero
        have hminzero : min = 0 := UInt32.le_antisymm (hle 0 hm) (UInt32.zero_le)
        exact hne ⟨hm, hminzero⟩
      · exact hmax m hm
    refine ⟨text, hspans, ?_⟩
    rw [hsum] at hlimit ⊢
    rw [show k + (kd + ke) = k + ke + kd by omega] at hlimit ⊢
    exact (he.after hk).range hd hmin hbound hlimit

omit hinput

/-! ## Expressions -/

/-- What is asked of a shape: lower case does not lengthen a literal that ignores case, and a range
is not empty. -/
def Countable : Shape → Prop
  | .literal value true => ∀ c ∈ value.toList, (Unicode.lowerChar c).length = 1
  | .range min (some max) _ _ => min ≤ max
  | _ => True

instance : DecidablePred Countable := fun shape => by
  unfold Countable
  split
  · exact List.decidableBAll _ _
  · exact UInt32.decLe _ _
  · exact .isTrue trivial

/-- What is asked of an input: its characters can be counted in 32 bits, and none of them gets
longer in lower case. -/
structure Plain (input : Input) : Prop where
  short : input.chars.length < 2 ^ 32
  lower : ∀ c ∈ input.chars, (Unicode.lowerChar c).length = 1

variable {c : Consumption.Context} {L : Nat → Language}

/-- A node takes as many characters as is found for it, if rules take what their records allow. -/
theorem takes_admitted (hplain : Plain input) (hcount : ∀ id, Countable (c.grammar.shape id))
    (hregex : RegexesEat input c.grammar fun id =>
      c.grammar.Owned id ∧ c.emptyRegex.getD id true = false)
    (htargets : ∀ id name, c.grammar.Owned id → c.grammar.shape id = .ruleRef name →
      c.targets[id]?.join = c.grammar.ruleIndex? name)
    (hL : ∀ index, (L index).Takes input (c.record index).Admits) {depth : Nat} {id : NodeId}
    (hwithin : c.grammar.Within depth id) (howned : c.grammar.Owned id) (height : Nat) :
    (ofNode input c.grammar L height id).Takes input (Consumption.ofNode c depth id).Admits := by
  have hinput : input.chars.length ≤ consumptionLimit := Nat.le_of_lt_succ hplain.short
  have hterminal {shape : Shape} {first : FirstSet} {n : Nat}
      (hlength : ∀ a cs text, input.rest? a = some cs → taken? input a shape = some text →
        text.length = n) :
      (ofTerminal input shape).Takes input (Consumption.exactly n first).Admits :=
    takes_terminal fun a cs text ha htaken =>
      hlength a cs text ha htaken ▸ Consumption.admits_exactly _ _
  have hnothing : Language.Takes input Eq Consumption.nothing.Admits := by
    refine takes_eq.weaken ?_
    rintro _ rfl
    exact Consumption.admits_nothing
  induction depth generalizing id height with
  | zero => exact hwithin.elim
  | succ depth ih =>
    cases height with
    | zero => rintro a b - ⟨⟩
    | succ height =>
      have hchild (e : NodeId) (he : e ∈ c.grammar.children id) :
          (ofNode input c.grammar L height e).Takes input (Consumption.ofNode c depth e).Admits :=
        ih (hwithin.2 e he) (howned.child he) height
      rw [Grammar.children] at hchild
      cases hshape : c.grammar.shape id <;> rw [hshape] at hchild
      case ruleRef name =>
        rw [Consumption.ofNode_ruleRef hshape, htargets id name howned hshape]
        simp only [ofNode, hshape]
        rintro a b ha ⟨index, hindex, hab⟩
        rw [hindex]
        exact hL index a b ha hab
      all_goals simp only [ofNode, Consumption.ofNode, hshape]
      case named name e => exact hchild e (List.mem_singleton_self e)
      case action e source => exact hchild e (List.mem_singleton_self e)
      case labeled label e => exact hchild e (List.mem_singleton_self e)
      case text e => exact hchild e (List.mem_singleton_self e)
      case choice es =>
        rintro a b ha ⟨e, he, hab⟩
        exact (hchild e he).weaken (fun k hk =>
          Consumption.admits_ofChoice (List.mem_map_of_mem he) hk) a b ha hab
      case sequence es => exact takes_sequence hinput hchild
      case optional e =>
        rintro a b ha (rfl | hab)
        · obtain ⟨text, hspans, hk⟩ := takes_eq a a ha rfl
          exact ⟨text, hspans, hk ▸ Consumption.admits_optional _⟩
        · exact (hchild e (List.mem_singleton_self e)).weaken (fun _ hk => hk.optional) a b ha hab
      case zeroOrMore e =>
        rintro a b ha ⟨n, hab⟩
        exact (takes_repeated (hchild e (List.mem_singleton_self e)) n).weaken
          (fun _ hk => hk.optional) a b ha hab
      case oneOrMore e =>
        rintro a b ha ⟨n, hab⟩
        have he := hchild e (List.mem_singleton_self e)
        refine (he.andThen (takes_repeated he n)).weaken ?_ a b ha hab
        rintro _ ⟨k, k', hk, hk', rfl⟩
        exact (hk'.after hk).repeated
      case range min max e delimiter =>
        have he := hchild e List.mem_cons_self
        split
        · next hempty =>
          refine takes_eq.weaken ?_
          rintro _ rfl
          rw [hempty.2]
          exact Consumption.admits_range _ _ _
        · next hne =>
          have hle : ∀ m ∈ max, min ≤ m := by
            rintro m rfl
            have hrange := hcount id
            rwa [hshape] at hrange
          cases delimiter with
          | none =>
            refine takes_range hinput hne hle he (he.weaken fun k hk => ?_)
            exact ⟨0, k, Consumption.admits_nothing, hk, (Nat.zero_add k).symm⟩
          | some d =>
            have hd := hchild d (List.mem_cons_of_mem _ (List.mem_singleton_self d))
            exact takes_range hinput hne hle he (hd.andThen he)
      case literal value ignoreCase =>
        refine hterminal fun a cs text ha htaken => ?_
        have hlower : ignoreCase = true → ∀ c ∈ value.toList, (Unicode.lowerChar c).length = 1 := by
          rintro rfl
          have hliteral := hcount id
          rwa [hshape] at hliteral
        obtain ⟨hlength, hlt⟩ := length_taken?_literal ha hplain.short hplain.lower hlower htaken
        rw [hlength, UInt32.toNat_ofNat_of_lt' hlt]
      case charClass parts inverted ignoreCase raw =>
        exact hterminal fun _ _ _ ha h => length_taken?_charClass ha h
      case any => exact hterminal fun _ _ _ => length_taken?_any
      case epsilon =>
        refine hterminal fun a cs text ha htaken => ?_
        cases htaken
        rfl
      case regex value ignoreCase multiLine raw =>
        refine takes_terminal fun a cs text ha htaken => ⟨?_, rfl⟩
        dsimp only
        split
        · exact Nat.zero_le _
        · next heats =>
          have hne := hregex id _ _ _ _ ⟨howned, by simpa using heats⟩ hshape
          rw [hshape] at hne
          exact List.length_pos_iff.mpr (hne a cs text ha htaken)
      all_goals exact hnothing

end Peg

end PegMachine
