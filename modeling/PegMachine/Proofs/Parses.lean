import PegMachine.Proofs.Language
import PegMachine.Proofs.Recall

/-!
# Parses keep to languages

What is recalled from a memo table was a match, or a failure, where it is recalled. So a parse keeps
to the languages of rules whether it memoizes or not, and goes on from a memo table that does.
-/

namespace PegMachine

namespace Peg

open Peg.Language

variable {σ : Type} {E : Setting σ} {g : Grammar} {L : Nat → Language}

/-- What is kept in the memo table of a state is allowed by the languages of rules. -/
def Remembers (L : Nat → Language) (s : State σ) : Prop :=
  ∀ T, s.memo = some T → ∀ e ∈ T.entries, Left (L e.rule) e.pos e.result e.nextPos

theorem Remembers.congr {s t : State σ} (h : Remembers L s) (hmemo : t.memo = s.memo) :
    Remembers L t := by
  intro T hT
  exact h T (hmemo ▸ hT)

/-- Nothing is kept before a parse. -/
theorem remembers_initial (E : Setting σ) (statistics : Statistics) (hs : σ) :
    Remembers L (E.initial statistics hs) := by
  intro T hT e he
  rw [Setting.entries_initial hT] at he
  exact absurd he (Array.not_mem_empty e)

/-! ## Operations -/

section

variable (s : State σ)

theorem memo_countCurrent (f : RuleCounters → RuleCounters) :
    (s.countCurrent f).memo = s.memo ∧ (s.countCurrent f).pos = s.pos := by
  unfold State.countCurrent
  split <;> exact ⟨rfl, rfl⟩

theorem memo_trace (kind : TraceEvent.Kind) (rule start stop : Nat) (result : Option Slot) :
    (s.trace E kind rule start stop result).memo = s.memo ∧
      (s.trace E kind rule start stop result).pos = s.pos := by
  unfold State.trace
  split <;> exact ⟨rfl, rfl⟩

theorem memo_failFor (e : Expectation) :
    (s.failFor e).memo = s.memo ∧ (s.failFor e).pos = s.pos := by
  have hcount := memo_countCurrent s (·.countFail s.isSilent)
  unfold State.failFor
  dsimp only
  split
  · exact hcount
  · unfold State.report
    dsimp only
    split
    · exact hcount
    · split <;> exact hcount

theorem memo_entered (index : Nat) :
    (s.entered E index).memo = s.memo ∧ (s.entered E index).pos = s.pos :=
  memo_trace _ _ _ _ _ _

theorem memo_recalled (index start nextPos : Nat) (result : Slot) :
    (s.recalled E index start nextPos result).memo = s.memo ∧
      (s.recalled E index start nextPos result).pos = nextPos := by
  unfold State.recalled
  dsimp only
  split <;> exact memo_trace _ _ _ _ _ _

theorem memo_returned (index start : Nat) (result : Slot) :
    (s.returned E index start result).memo = (s.remember E index start result).memo ∧
      (s.returned E index start result).pos = s.pos := by
  have hpos : (s.remember E index start result).pos = s.pos := by
    unfold State.remember
    split <;> rfl
  unfold State.returned
  dsimp only
  split
  · exact ⟨(memo_trace _ _ _ _ _ _).1, (memo_trace _ _ _ _ _ _).2.trans hpos⟩
  · exact ⟨(memo_trace _ _ _ _ _ _).1, (memo_trace _ _ _ _ _ _).2.trans hpos⟩

end

/-- An action does not touch the memo table. -/
theorem memo_call {a : Program.Action} {start : Nat} {args : List Value} {s t : State σ}
    {o : Outcome Slot} (h : (machine E).call a start args s = (o, t)) :
    t.memo = s.memo ∧ ∀ v, o = .ok v → t.pos = if v.isFailed then start else s.pos := by
  rw [machine_call, State.perform] at h
  dsimp only at h
  split at h
  · cases h
    exact ⟨rfl, fun _ hv => by cases hv; rfl⟩
  · cases h
    exact ⟨rfl, fun _ hv => by cases hv; rfl⟩
  all_goals
    cases h
    exact ⟨rfl, by rintro _ ⟨⟩⟩

/-- The operations on the state of a parse leave the memo table alone. -/
theorem machine_keeps : (machine E).Keeps (.of (Remembers L)) where
  pos _ _ := trivial
  goTo _ _ _ hs := ⟨hs.congr rfl, rfl⟩
  fail e s hs := ⟨hs.congr (memo_failFor s e).1, (memo_failFor s e).2⟩
  discard s hs := ⟨hs.congr (memo_countCurrent s _).1, (memo_countCurrent s _).2⟩
  hush _ hs := ⟨hs.congr rfl, rfl⟩
  unhush _ _ _ _ ht := ⟨ht.congr rfl, rfl⟩
  unhush_ended _ _ _ _ _ := trivial
  call _ _ _ _ v _ _ hs hrun := ⟨hs.congr (memo_call hrun).1, (memo_call hrun).2 v rfl⟩
  call_ended _ _ _ _ _ _ _ _ _ := trivial

/-! ## Rules -/

/-- What is recalled is allowed where it is recalled. -/
theorem Remembers.recalls {s : State σ} (h : Remembers L s) {index nextPos : Nat} {result : Slot}
    (hhit : s.memoized? E index = some (nextPos, result)) :
    Left (L index) s.pos result nextPos := by
  rw [State.memoized?] at hhit
  split at hhit
  · obtain ⟨e, he, hout⟩ := Option.map_eq_some_iff.mp hhit
    cases hout
    obtain ⟨T, hT, hget⟩ := Option.bind_eq_some_iff.mp (Option.filter_eq_some_iff.mp he).1
    obtain ⟨hmem, hpos, hrule⟩ := MemoTable.get?_eq_some hget
    have hleft := h T hT e hmem
    rwa [hpos, hrule] at hleft
  · cases hhit

/-- What is allowed may be kept. -/
theorem Remembers.remember {s : State σ} (h : Remembers L s) {index start : Nat} {result : Slot}
    (hleft : Left (L index) start result s.pos) :
    Remembers L (s.remember E index start result) := by
  unfold State.remember
  split
  · intro T hT e he
    obtain ⟨T', hT', rfl⟩ := Option.map_eq_some_iff.mp hT
    rcases MemoTable.mem_insert he with rfl | he
    · exact hleft
    · exact h T' hT' e he
  · exact h

/-- A rule is left within its language by what is recalled for it. -/
theorem Remembers.recalled {s : State σ} (h : Remembers L s) {index nextPos : Nat} {result : Slot}
    (hhit : (s.entered E index).memoized? E index = some (nextPos, result)) :
    Remembers L ((s.entered E index).recalled E index s.pos nextPos result) ∧
      Left (L index) s.pos result
        ((s.entered E index).recalled E index s.pos nextPos result).pos := by
  obtain ⟨hentered, hstart⟩ := memo_entered (E := E) s index
  obtain ⟨hmemo, hpos⟩ :=
    memo_recalled (E := E) (s.entered E index) index s.pos nextPos result
  have hleft := (h.congr hentered).recalls hhit
  rw [hstart] at hleft
  rw [hpos]
  exact ⟨(h.congr hentered).congr hmemo, hleft⟩

/-- A rule is left within its language as its body is. -/
theorem Remembers.left {s t : State σ} (ht : Remembers L t) {index : Nat} {result : Slot}
    (hleft : Left (L index) s.pos result t.pos) :
    Remembers L (State.left E s index (.ok result) t) ∧
      (State.left E s index (.ok result) t).pos = t.pos := by
  have hback : Remembers L { t with currentRule := s.currentRule } := ht.congr rfl
  obtain ⟨hmemo, hpos⟩ :=
    memo_returned (E := E) { t with currentRule := s.currentRule } index s.pos result
  exact ⟨(hback.remember hleft).congr hmemo, hpos⟩

/-- A rule is run within its language, if that allows all that its expression may match. -/
theorem machineRule_matches
    (hrule : ∀ index a b, ofRule E.input g L index a b → L index a b) (fuel index : Nat) :
    Matches (machine E) (.of (Remembers L)) (machineRule E g fuel index) (L index) := by
  induction fuel generalizing index with
  | zero => exact matches_forever
  | succ fuel ih =>
    refine fun s hs => ⟨fun v t hrun => ?_, fun _ _ _ => trivial⟩
    rcases State.rule_eq_some.mp hrun with ⟨p, result, hhit, hend⟩ | ⟨-, o, u, hbody, hend⟩
    · cases hend
      exact Remembers.recalled hs hhit
    · cases hend
      have hmatches : Matches (machine E) (.of (Remembers L))
          (body (machine E) E.input g (machineRule E g fuel) fuel index) _ :=
        (body_matches machine_keeps (Invariant.spreads_of _ _) (fun i _ => ih i) fuel
          index).weaken (hrule index)
      obtain ⟨hentered, hstart⟩ := memo_entered (E := E) s index
      obtain ⟨hu, hleft⟩ := (hmatches { s.entered E index with currentRule := some index }
        (Remembers.congr hs hentered)).ok v u hbody
      have hleft : Left (L index) s.pos v u.pos := hstart ▸ hleft
      obtain ⟨hkept, hpos⟩ := Remembers.left (E := E) hu hleft
      refine ⟨hkept, ?_⟩
      rw [machine_pos, machine_pos, hpos]
      exact hleft

end Peg

end PegMachine
