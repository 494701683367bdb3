import Mathlib.Data.List.Sort
import Mathlib.Data.String.Basic
import PegMachine.Expectation

/-!
# What was expected, as it is shown

The order of expectations is a linear order, so what is shown of expected things only depends on
what they are, and not on how often or in which order they were reported.
-/

namespace PegMachine

namespace Expectation

theorem optionLe_trans {a b c : Option String} (hab : optionLe a b = true)
    (hbc : optionLe b c = true) : optionLe a c = true := by
  cases a with
  | none => rfl
  | some a =>
    cases b with
    | none => cases hab
    | some b =>
      cases c with
      | none => cases hbc
      | some c =>
        simp only [optionLe, decide_eq_true_eq] at hab hbc ⊢
        exact hab.trans hbc

theorem optionLe_total (a b : Option String) : optionLe a b = true ∨ optionLe b a = true := by
  cases a with
  | none => exact .inl rfl
  | some a =>
    cases b with
    | none => exact .inr rfl
    | some b =>
      simp only [optionLe, decide_eq_true_eq]
      exact le_total a b

theorem optionLe_antisymm {a b : Option String} (hab : optionLe a b = true)
    (hba : optionLe b a = true) : a = b := by
  cases a with
  | none =>
    cases b with
    | none => rfl
    | some b => cases hba
  | some a =>
    cases b with
    | none => cases hab
    | some b =>
      simp only [optionLe, decide_eq_true_eq] at hab hba
      rw [hab.antisymm hba]

theorem rank_injective {a b : Kind} (h : a.rank = b.rank) : a = b := by
  cases a <;> cases b <;> first | rfl | cases h

/-- One expectation comes before another by its description, else by its kind, else by its text. -/
theorem le_iff {a b : Expectation} :
    le a b = true ↔ a.description < b.description ∨ a.description = b.description ∧
      (a.kind.rank < b.kind.rank ∨ a.kind = b.kind ∧ optionLe a.value b.value = true) := by
  unfold le
  by_cases hd : a.description = b.description
  · by_cases hk : a.kind = b.kind
    · simp [hd, hk]
    · have hrank : a.kind.rank ≠ b.kind.rank := fun h => hk (rank_injective h)
      simp only [hd, hk, if_true, if_false, decide_eq_true_eq]
      have : ¬b.description < b.description := lt_irrefl _
      grind
  · simp only [hd, if_false, decide_eq_true_eq, false_and, or_false]
    exact ⟨fun h => lt_of_le_of_ne h hd, fun h => h.le⟩

theorem le_trans {a b c : Expectation} (hab : le a b = true) (hbc : le b c = true) :
    le a c = true := by
  rw [le_iff] at hab hbc ⊢
  rcases hab with hab | ⟨hab, hab'⟩
  · rcases hbc with hbc | ⟨hbc, -⟩
    · exact .inl (hab.trans hbc)
    · exact .inl (hbc ▸ hab)
  · rcases hbc with hbc | ⟨hbc, hbc'⟩
    · exact .inl (hab ▸ hbc)
    · refine .inr ⟨hab.trans hbc, ?_⟩
      rcases hab' with hab' | ⟨hk, hv⟩
      · rcases hbc' with hbc' | ⟨hk', -⟩
        · exact .inl (hab'.trans hbc')
        · exact .inl (hk' ▸ hab')
      · rcases hbc' with hbc' | ⟨hk', hv'⟩
        · exact .inl (hk ▸ hbc')
        · exact .inr ⟨hk.trans hk', optionLe_trans hv hv'⟩

theorem le_total (a b : Expectation) : le a b = true ∨ le b a = true := by
  simp only [le_iff]
  rcases lt_trichotomy a.description b.description with hd | hd | hd
  · exact .inl (.inl hd)
  · rcases Nat.lt_trichotomy a.kind.rank b.kind.rank with hk | hk | hk
    · exact .inl (.inr ⟨hd, .inl hk⟩)
    · have hkind := rank_injective hk
      rcases optionLe_total a.value b.value with hv | hv
      · exact .inl (.inr ⟨hd, .inr ⟨hkind, hv⟩⟩)
      · exact .inr (.inr ⟨hd.symm, .inr ⟨hkind.symm, hv⟩⟩)
    · exact .inr (.inr ⟨hd.symm, .inl hk⟩)
  · exact .inr (.inl hd)

theorem le_antisymm {a b : Expectation} (hab : le a b = true) (hba : le b a = true) : a = b := by
  rw [le_iff] at hab hba
  rcases hab with hab | ⟨hd, hab⟩
  · rcases hba with hba | ⟨hd, -⟩
    · exact absurd hba hab.asymm
    · exact absurd hab (hd ▸ lt_irrefl _)
  · rcases hba with hba | ⟨-, hba⟩
    · exact absurd hba (hd ▸ lt_irrefl _)
    · rcases hab with hab | ⟨hk, hv⟩
      · rcases hba with hba | ⟨hk, -⟩
        · exact absurd hba (by omega)
        · exact absurd hab (hk ▸ Nat.lt_irrefl _)
      · rcases hba with hba | ⟨-, hv'⟩
        · exact absurd hba (hk ▸ Nat.lt_irrefl _)
        · obtain ⟨kind, value, description⟩ := a
          obtain ⟨kind', value', description'⟩ := b
          rw [mk.injEq]
          exact ⟨hk, optionLe_antisymm hv hv', hd⟩

/-! ## Sorted lists without repetition -/

theorem mem_dropRepeats {e : Expectation} (es : List Expectation) :
    e ∈ dropRepeats es ↔ e ∈ es := by
  fun_induction dropRepeats es with
  | case1 => rfl
  | case2 => rfl
  | case3 b rest ih => simp [ih]
  | case4 a b rest hne ih => simp [ih]

/-- What is left of a sorted list rises strictly. -/
theorem pairwise_dropRepeats {es : List Expectation} (h : es.Pairwise (le · · = true)) :
    (dropRepeats es).Pairwise fun a b => le a b = true ∧ a ≠ b := by
  fun_induction dropRepeats es with
  | case1 => exact .nil
  | case2 e => exact List.pairwise_singleton _ _
  | case3 b rest ih => exact ih h.of_cons
  | case4 a b rest hne ih =>
    refine .cons (fun c hc => ?_) (ih h.of_cons)
    rw [mem_dropRepeats] at hc
    have hac := List.rel_of_pairwise_cons h hc
    refine ⟨hac, ?_⟩
    rintro rfl
    -- The next one is between the first one and its copy further on.
    have hab := List.rel_of_pairwise_cons h (List.mem_cons_self)
    rcases List.mem_cons.mp hc with rfl | hc
    · exact hne rfl
    · exact hne (le_antisymm hab (List.rel_of_pairwise_cons h.of_cons hc))

theorem mem_tidy {e : Expectation} (es : List Expectation) : e ∈ tidy es ↔ e ∈ es := by
  rw [tidy, mem_dropRepeats, List.mem_mergeSort]

/-- What is shown only depends on what was expected. -/
theorem tidy_congr {es es' : List Expectation} (h : ∀ e, e ∈ es ↔ e ∈ es') :
    tidy es = tidy es' := by
  have hsorted (es : List Expectation) : (tidy es).Pairwise fun a b => le a b = true ∧ a ≠ b :=
    pairwise_dropRepeats (@List.pairwise_mergeSort _ le (fun _ _ _ => le_trans)
      (fun a b => (Bool.or_eq_true _ _).mpr (le_total a b)) es)
  have : Std.Irrefl fun a b : Expectation => le a b = true ∧ a ≠ b := ⟨fun _ h => h.2 rfl⟩
  have : Std.Antisymm fun a b : Expectation => le a b = true ∧ a ≠ b :=
    ⟨fun _ _ hab hba => le_antisymm hab.1 hba.1⟩
  exact (hsorted es).eq_of_mem_iff (hsorted es') fun e => by rw [mem_tidy, mem_tidy, h]

end Expectation

end PegMachine
