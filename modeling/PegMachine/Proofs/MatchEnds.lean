import Mathlib.Data.List.Basic
import PegMachine.Proofs.Boundaries
import PegMachine.Regex

/-!
# Where matches end

A match of a pattern ends at a place that single steps over characters lead to from where it
starts. So whatever these steps keep holds of every end. In particular each end has the text before
it in front of it: the offset of an end is the size of that text, and no match ends inside a
character or behind the text.
-/

namespace PegMachine

namespace Regex

variable {K : Cursor → Prop}

/-- All places of a list have a property if those of another list have it. -/
theorem Cursor.forall_distinct {cs : List Cursor} (h : ∀ c ∈ cs, K c) : ∀ c ∈ distinct cs, K c := by
  have hkept : ∀ c ∈ (cs.foldl distinct.keep (∅, [])).2, K c := by
    have hnone : ∀ c ∈ ((∅, []) : Std.HashSet Nat × List Cursor).2, K c := nofun
    refine List.foldlRecOn cs distinct.keep (motive := fun r => ∀ c ∈ r.2, K c) hnone ?_
    rintro ⟨seen, kept⟩ hkept c hc
    rw [distinct.keep]
    split
    · exact hkept
    · exact List.forall_mem_cons.mpr ⟨h c hc, hkept⟩
  unfold distinct
  split
  · exact h
  · exact h
  · simpa only [List.mem_reverse] using hkept

/-- All ends that were found have a property. -/
def Visit.Keeps (K : Cursor → Prop) (v : Visit) : Prop := ∀ c ∈ v.found, K c

namespace Visit.Keeps

variable {v : Visit} {c : Cursor}

theorem none : Visit.none.Keeps K := nofun

theorem emit (h : v.Keeps K) (hc : K c) : (v.emit c).Keeps K := List.forall_mem_cons.mpr ⟨hc, h⟩

theorem mark (h : v.Keeps K) (left : Nat) (c : Cursor) : (v.mark left c).Keeps K := h

theorem ends (h : v.Keeps K) : ∀ c ∈ v.ends, K c :=
  Cursor.forall_distinct fun c hc => h c (List.mem_reverse.mp hc)

end Visit.Keeps

/-! ## Repetition -/

section

variable {step : Cursor → List Cursor} {greedy : Bool} {c : Cursor} {v : Visit}
  (hstep : ∀ c, K c → ∀ e ∈ step c, K e)
include hstep

theorem visitStar_keeps (fuel : Nat) (hc : K c) (hv : v.Keeps K) :
    (visitStar step greedy fuel c v).Keeps K := by
  induction fuel generalizing c v with
  | zero => exact hv
  | succ fuel ih =>
    have hfold {w : Visit} (hw : w.Keeps K) :
        ((step c).foldl (fun v e => visitStar step greedy fuel e v) w).Keeps K :=
      List.foldlRecOn _ _ hw fun _ hv e he => ih (hstep c hc e he) hv
    rw [visitStar]
    split
    · exact hv
    · dsimp only
      split
      · exact (hfold (hv.mark 0 c)).emit hc
      · exact hfold ((hv.mark 0 c).emit hc)

theorem visitPlus_keeps (fuel : Nat) (hc : K c) (hv : v.Keeps K) :
    (visitPlus step greedy fuel c v).Keeps K := by
  induction fuel generalizing c v with
  | zero => exact hv
  | succ fuel ih =>
    rw [visitPlus]
    split
    · exact hv
    · refine List.foldlRecOn _ _ (hv.mark 0 c) fun _ hv e he => ?_
      have hk : K e := hstep c hc e he
      split
      · exact (ih hk hv).emit hk
      · exact ih hk (hv.emit hk)

theorem visitUpTo_keeps (left : Nat) (hc : K c) (hv : v.Keeps K) :
    (visitUpTo step greedy left c v).Keeps K := by
  induction left generalizing c v with
  | zero => exact hv.emit hc
  | succ left ih =>
    have hfold {w : Visit} (hw : w.Keeps K) :
        ((step c).foldl (fun v e => visitUpTo step greedy left e v) w).Keeps K :=
      List.foldlRecOn _ _ hw fun _ hv e he => ih (hstep c hc e he) hv
    rw [visitUpTo]
    split
    · exact hv
    · dsimp only
      split
      · exact (hfold (hv.mark left c)).emit hc
      · exact hfold ((hv.mark left c).emit hc)

theorem exactly_keeps (n : Nat) {cs : List Cursor} (h : ∀ c ∈ cs, K c) :
    ∀ c ∈ exactly step n cs, K c := by
  induction n generalizing cs with
  | zero => exact h
  | succ n ih =>
    rw [exactly]
    split
    · exact nofun
    · refine ih (Cursor.forall_distinct fun e he => ?_)
      obtain ⟨c, hc, he⟩ := List.mem_flatMap.mp he
      exact hstep c (h c hc) e he

theorem repeated_keeps (nullable : Bool) (min : Nat) (max : Option Nat) (hc : K c) :
    ∀ e ∈ repeated step greedy nullable min max c, K e := by
  have hexactly (n : Nat) : ∀ e ∈ exactly step n [c], K e :=
    exactly_keeps hstep n (List.forall_mem_singleton.mpr hc)
  unfold repeated
  split
  · refine Cursor.forall_distinct fun e he => ?_
    obtain ⟨c, hc, he⟩ := List.mem_flatMap.mp he
    exact (visitUpTo_keeps hstep _ (hexactly _ c hc) .none).ends e he
  · split
    · split
      · unfold anyNullable
        dsimp only
        split
        · exact ((visitPlus_keeps hstep _ hc .none).emit hc).ends
        · exact (visitPlus_keeps hstep _ hc (Visit.Keeps.none.emit hc)).ends
      · exact (visitStar_keeps hstep _ hc .none).ends
    · refine Cursor.forall_distinct fun e he => ?_
      obtain ⟨c, hc, he⟩ := List.mem_flatMap.mp he
      exact (visitPlus_keeps hstep _ (hexactly _ c hc) .none).ends e he

end

/-! ## Patterns -/

section

variable (hadvance : ∀ c s e, K c → c.advance? s = some e → K e)
include hadvance

/-- What steps over characters keep holds of all ends of a match. -/
theorem Pattern.ends_keep (p : Pattern) {c : Cursor} (hc : K c) : ∀ e ∈ p.ends c, K e := by
  induction p generalizing c with
  | empty => exact List.forall_mem_singleton.mpr hc
  | set s => exact fun e he => hadvance c s e hc (Option.mem_toList.mp he)
  | assert a =>
    rw [ends]
    split
    · exact List.forall_mem_singleton.mpr hc
    · exact nofun
  | seq p q ihp ihq =>
    refine Cursor.forall_distinct fun e he => ?_
    obtain ⟨d, hd, he⟩ := List.mem_flatMap.mp he
    exact ihq (ihp hc d hd) e he
  | alt p q ihp ihq =>
    exact Cursor.forall_distinct (List.forall_mem_append.mpr ⟨ihp hc, ihq hc⟩)
  | rep body min max greedy ih => exact repeated_keeps (fun _ => ih) _ min max hc

theorem Pattern.matchAt?_keeps (p : Pattern) {c e : Cursor} (hc : K c) (h : p.matchAt? c = some e) :
    K e := p.ends_keep hadvance hc e (List.mem_of_mem_head? h)

theorem Pattern.search?_keeps (p : Pattern) (fuel : Nat) {c e : Cursor} (hc : K c)
    (h : p.search? fuel c = some e) : K e := by
  induction fuel generalizing c with
  | zero => cases h
  | succ fuel ih =>
    rw [search?] at h
    split at h
    · next hmatch =>
      cases h
      exact p.matchAt?_keeps hadvance hc hmatch
    · obtain ⟨d, hd, h⟩ := Option.bind_eq_some_iff.mp h
      exact ih (hadvance c _ d hc hd) h

theorem Pattern.find?_keeps (p : Pattern) {text : List Char} {e : Cursor} (hc : K (.start text))
    (h : p.find? text = some e) : K e := by
  rw [find?] at h
  split at h
  · exact p.matchAt?_keeps hadvance hc h
  · exact p.search?_keeps hadvance _ hc h

end

/-- A place stands in a text, behind some of it. -/
def Cursor.Within (text : List Char) (c : Cursor) : Prop :=
  ∃ xs, text = xs ++ c.rest ∧ c.offset = Text.byteSize xs

theorem Cursor.Within.advance {text : List Char} (c : Cursor) (s : CharSet) (e : Cursor)
    (h : c.Within text) (hadvance : c.advance? s = some e) : e.Within text := by
  obtain ⟨xs, htext, hoffset⟩ := h
  rw [advance?] at hadvance
  split at hadvance
  · cases hadvance
  · next d rest hrest =>
    split at hadvance
    · cases hadvance
      refine ⟨xs ++ [d], by rw [htext, hrest, List.append_assoc]; rfl, ?_⟩
      rw [Text.byteSize_append, hoffset]
      rfl
    · cases hadvance

theorem Cursor.within_start (text : List Char) : (start text).Within text := ⟨[], rfl, rfl⟩

/-- A match ends behind some of the text, and its end is the size of that. -/
theorem matchEnd?_eq_some {r : Regex} {text : List Char} {n : Nat} (h : r.matchEnd? text = some n) :
    ∃ xs ys, text = xs ++ ys ∧ n = Text.byteSize xs := by
  obtain ⟨e, hfind, rfl⟩ := Option.map_eq_some_iff.mp h
  obtain ⟨xs, htext, hoffset⟩ :=
    r.pattern.find?_keeps Cursor.Within.advance (Cursor.within_start text) hfind
  exact ⟨xs, e.rest, htext, hoffset⟩

end Regex

end PegMachine
