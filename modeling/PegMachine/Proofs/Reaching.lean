import Mathlib.Data.Finset.Card
import PegMachine.Analysis.Reach

/-!
# Reaching is complete

After as many rounds as there are numbers, everything is marked that can be reached: a round either
marks a number more or finds that all edges of what is marked were followed. Nothing else is marked.
-/

namespace PegMachine

namespace Reach

/-- A number is marked. -/
def Marked (marked : Array Bool) (i : Nat) : Prop := marked.getD i false = true

/-- All edges of what is marked were followed. -/
def Closed (edges : Nat → List Nat) (bound : Nat) (marked : Array Bool) : Prop :=
  ∀ i j, Marked marked i → j ∈ edges i → j < bound → Marked marked j

variable {edges : Nat → List Nat} {bound : Nat} {marked : Array Bool} {ids : List Nat} {i j : Nat}

theorem Marked.lt_size (h : Marked marked i) : i < marked.size := by
  by_contra hge
  simp [Marked, Array.getD, hge] at h

theorem marked_setIfInBounds :
    Marked (marked.setIfInBounds i true) j ↔ Marked marked j ∨ (j = i ∧ i < marked.size) := by
  rw [Marked, Marked, Array.getD_eq_getD_getElem?, Array.getD_eq_getD_getElem?,
    Array.getElem?_setIfInBounds]
  by_cases hij : i = j
  · subst hij
    by_cases hlt : i < marked.size <;> simp [hlt]
  · have hji : ¬j = i := fun h => hij h.symm
    simp [hij, hji]

theorem size_markAll : (markAll marked ids).size = marked.size := by
  unfold markAll
  induction ids generalizing marked with
  | nil => rfl
  | cons id ids ih =>
    rw [List.foldl_cons, ih, Array.size_setIfInBounds]

theorem marked_markAll :
    Marked (markAll marked ids) j ↔ Marked marked j ∨ (j ∈ ids ∧ j < marked.size) := by
  unfold markAll
  induction ids generalizing marked with
  | nil => simp
  | cons id ids ih =>
    rw [List.foldl_cons, ih, marked_setIfInBounds, Array.size_setIfInBounds]
    constructor
    · rintro ((h | ⟨rfl, h⟩) | ⟨h, hlt⟩)
      · exact .inl h
      · exact .inr ⟨List.mem_cons_self, h⟩
      · exact .inr ⟨List.mem_cons_of_mem _ h, hlt⟩
    · rintro (h | ⟨h, hlt⟩)
      · exact .inl (.inl h)
      · rcases List.mem_cons.mp h with rfl | h
        · exact .inl (.inr ⟨rfl, hlt⟩)
        · exact .inr ⟨h, hlt⟩

/-! ## A round -/

/-- Follow the edges of those of some numbers that are marked. -/
def follow (edges : Nat → List Nat) (marked : Array Bool) (is : List Nat) : Array Bool :=
  is.foldl (fun marked i => if marked.getD i false then markAll marked (edges i) else marked) marked

theorem follow_cons (is : List Nat) :
    follow edges marked (i :: is) =
      follow edges (if marked.getD i false then markAll marked (edges i) else marked) is := rfl

theorem size_follow (is : List Nat) : (follow edges marked is).size = marked.size := by
  induction is generalizing marked with
  | nil => rfl
  | cons i is ih =>
    rw [follow_cons, ih]
    split
    · exact size_markAll
    · rfl

theorem Marked.follow (h : Marked marked j) (is : List Nat) : Marked (follow edges marked is) j := by
  induction is generalizing marked with
  | nil => exact h
  | cons i is ih =>
    rw [follow_cons]
    refine ih ?_
    split
    · exact marked_markAll.mpr (.inl h)
    · exact h

/-- The edges of what was marked are followed. -/
theorem marked_follow {is : List Nat} (hi : Marked marked i) (his : i ∈ is) (hj : j ∈ edges i)
    (hlt : j < marked.size) : Marked (follow edges marked is) j := by
  induction is generalizing marked with
  | nil => cases his
  | cons k is ih =>
    rw [follow_cons]
    rcases List.mem_cons.mp his with rfl | his
    · have hi' : marked.getD i false = true := hi
      rw [if_pos hi']
      exact (marked_markAll.mpr (.inr ⟨hj, hlt⟩)).follow is
    · split
      · exact ih (marked_markAll.mpr (.inl hi)) his (by rwa [size_markAll])
      · exact ih hi his hlt

/-- What holds of all that is marked and is kept by edges holds of all that gets marked. -/
theorem of_marked_follow {P : Nat → Prop} (hP : ∀ i, P i → ∀ j ∈ edges i, j < marked.size → P j)
    (h : ∀ i, Marked marked i → P i) (is : List Nat) (hj : Marked (follow edges marked is) j) :
    P j := by
  induction is generalizing marked with
  | nil => exact h j hj
  | cons i is ih =>
    rw [follow_cons] at hj
    split at hj
    · next hi =>
      refine ih (by rwa [size_markAll]) (fun k hk => ?_) hj
      rcases marked_markAll.mp hk with hk | ⟨hk, hlt⟩
      · exact h k hk
      · exact hP i (h i hi) k hk hlt
    · exact ih hP h hj

theorem of_marked_rounds {P : Nat → Prop} (hP : ∀ i, P i → ∀ j ∈ edges i, j < marked.size → P j)
    (h : ∀ i, Marked marked i → P i) (n : Nat) (hj : Marked (rounds edges bound n marked) j) :
    P j := by
  induction n generalizing marked with
  | zero => exact h j hj
  | succ n ih => exact ih (by rwa [size_follow]) (fun i hi => of_marked_follow hP h _ hi) hj

theorem Marked.rounds (h : Marked marked j) (n : Nat) : Marked (rounds edges bound n marked) j := by
  induction n generalizing marked with
  | zero => exact h
  | succ n ih => exact ih (h.follow _)

/-! ## Enough rounds -/

/-- The numbers that are not marked. -/
def unmarked (bound : Nat) (marked : Array Bool) : Finset Nat :=
  (Finset.range bound).filter fun i => marked.getD i false = false

theorem mem_unmarked : i ∈ unmarked bound marked ↔ i < bound ∧ ¬Marked marked i := by
  simp [unmarked, Marked]

/-- Nothing gets marked any more once all edges were followed. -/
theorem Closed.rounds (h : Closed edges bound marked) (hsize : marked.size = bound) (n : Nat) :
    Closed edges bound (rounds edges bound n marked) := by
  intro i j hi hj hlt
  have hi' : Marked marked i := of_marked_rounds (P := Marked marked)
    (fun i hi j hj hlt => h i j hi hj (hsize ▸ hlt)) (fun _ h => h) n hi
  exact (h i j hi' hj hlt).rounds n

theorem closed_rounds {n : Nat} (hsize : marked.size = bound)
    (hn : (unmarked bound marked).card ≤ n) :
    Closed edges bound (rounds edges bound n marked) := by
  induction n generalizing marked with
  | zero =>
    intro i j hi hj hlt
    have hnone : unmarked bound marked = ∅ := Finset.card_eq_zero.mp (Nat.le_zero.mp hn)
    by_contra hnot
    exact Finset.notMem_empty j (hnone ▸ mem_unmarked.mpr ⟨hlt, hnot⟩)
  | succ n ih =>
    by_cases hclosed : Closed edges bound marked
    · exact hclosed.rounds hsize (n + 1)
    · -- The round marks a number that was not marked.
      obtain ⟨i, j, hi, hj, hlt, hnot⟩ : ∃ i j, Marked marked i ∧ j ∈ edges i ∧ j < bound ∧
          ¬Marked marked j := by
        simpa [Closed] using hclosed
      have hmarked : Marked (Reach.round edges bound marked) j :=
        marked_follow hi (List.mem_range.mpr (hsize ▸ hi.lt_size)) hj (hsize ▸ hlt)
      have hfewer : unmarked bound (Reach.round edges bound marked) ⊂ unmarked bound marked := by
        refine (Finset.ssubset_iff_of_subset fun k hk => ?_).mpr
          ⟨j, mem_unmarked.mpr ⟨hlt, hnot⟩, fun h => (mem_unmarked.mp h).2 hmarked⟩
        obtain ⟨hk, hnot⟩ := mem_unmarked.mp hk
        exact mem_unmarked.mpr ⟨hk, fun h => hnot (h.follow _)⟩
      have hcard := Finset.card_lt_card hfewer
      exact ih ((size_follow _).trans hsize) (by omega)

/-! ## Closures -/

theorem marked_start {start : List Nat} (hi : i ∈ start) (hlt : i < bound) :
    Marked (closure edges bound start) i :=
  Marked.rounds (marked_markAll.mpr (.inr ⟨hi, by simpa using hlt⟩)) bound

/-- Everything that can be reached is marked. -/
theorem closed_closure (start : List Nat) : Closed edges bound (closure edges bound start) := by
  refine closed_rounds (by rw [size_markAll, Array.size_replicate]) ?_
  refine (Finset.card_filter_le _ _).trans_eq (Finset.card_range bound)

/-- What holds of all starting points and is kept by edges holds of all that is marked. -/
theorem of_marked_closure {P : Nat → Prop} {start : List Nat} (hstart : ∀ i ∈ start, P i)
    (hP : ∀ i, P i → ∀ j ∈ edges i, P j) (hj : Marked (closure edges bound start) j) : P j := by
  refine of_marked_rounds (fun i hi j hj _ => hP i hi j hj) (fun i hi => ?_) bound hj
  rcases marked_markAll.mp hi with hi | ⟨hi, -⟩
  · simp [Marked, Array.getD] at hi
  · exact hstart i hi

theorem lt_of_marked_closure {start : List Nat} (h : Marked (closure edges bound start) i) :
    i < bound := by
  have hsize (n : Nat) (marked : Array Bool) : (rounds edges bound n marked).size = marked.size := by
    induction n generalizing marked with
    | zero => rfl
    | succ n ih => exact (ih _).trans (size_follow _)
  have hlt := h.lt_size
  rwa [closure, hsize, size_markAll, Array.size_replicate] at hlt

end Reach

end PegMachine
