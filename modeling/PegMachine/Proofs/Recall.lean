import PegMachine.Proofs.Expectations
import PegMachine.Proofs.Points

/-!
# Recalling outcomes

Every entry of a memo table stands for a run of its rule, wherever one might be wanted: it has the
outcome of that run, and unless the entry was made while failures were not reported, what the run
would report was reported before and is at or before the furthest failure. So recalling the entry
leaves everything that is shown of the failures as the run would have left it.
-/

namespace PegMachine

open Filter

namespace MemoTable

variable {t : MemoTable} {pos rule : Nat} {e e' : MemoEntry}

theorem look_eq_found {bucket place : Nat} (h : t.look pos rule bucket = some (.found place)) :
    ∃ e, t.entries[place]? = some e ∧ e.pos = pos ∧ e.rule = rule := by
  unfold look at h
  split at h
  · cases h
  · split at h
    · cases h
    · split at h
      · cases h
      · next e he =>
        split at h
        · next hkey =>
          cases h
          rw [isFor, Bool.and_eq_true, beq_iff_eq, beq_iff_eq] at hkey
          exact ⟨e, he, hkey⟩
        · cases h

theorem probe_eq_found {n bucket place : Nat} (h : t.probe pos rule n bucket = .found place) :
    ∃ e, t.entries[place]? = some e ∧ e.pos = pos ∧ e.rule = rule := by
  induction n generalizing bucket with
  | zero => cases h
  | succ n ih =>
    rw [probe] at h
    split at h
    · next hlook =>
      subst h
      exact look_eq_found hlook
    · exact ih h

/-- What is found for a key is an entry with that key. -/
theorem get?_eq_some (h : t.get? pos rule = some e) :
    e ∈ t.entries ∧ e.pos = pos ∧ e.rule = rule := by
  rw [get?] at h
  split at h
  · next place hfound =>
    obtain ⟨e', he', hkey⟩ := probe_eq_found hfound
    rw [h] at he'
    cases he'
    exact ⟨Array.mem_of_getElem? h, hkey⟩
  · cases h

/-- Keeping an entry adds nothing else. -/
theorem mem_insert (h : e' ∈ (t.insert e).entries) : e' = e ∨ e' ∈ t.entries := by
  have hgrown : (if t.isCrowded then t.grow else t).entries = t.entries := by
    split <;> rfl
  rw [insert] at h
  split at h
  · rw [hgrown] at h
    exact (Array.mem_or_eq_of_mem_setIfInBounds h).symm
  · rw [hgrown, Array.mem_push] at h
    exact h.symm
  · rw [hgrown] at h
    exact .inr h

end MemoTable

/-- The memo table of a new parse is empty. -/
theorem Setting.entries_initial {σ : Type} {E : Setting σ} {statistics : Statistics} {hs : σ}
    {t : MemoTable} (h : (E.initial statistics hs).memo = some t) : t.entries = #[] := by
  rw [Setting.initial] at h
  dsimp only at h
  split at h
  · cases h
    rfl
  · cases h

/-- The answers of a handler do not depend on its state. -/
def Handler.Stateless {σ : Type} (h : Handler σ) : Prop :=
  ∀ i a c args s s', (h i a c args s).1 = (h i a c args s').1

namespace Peg

/-! ## Furthest failures -/

/-- Reports are at or before the furthest failure, and what they say of it is known. -/
def Covers (furthest : Nat) (expected : List Expectation) (L : List (Nat × Expectation)) : Prop :=
  ∀ p e, (p, e) ∈ L → p < furthest ∨ p = furthest ∧ e ∈ expected

/-- The furthest failure is that of some reports. -/
structure Summary (furthest : Nat) (expected : List Expectation) (L : List (Nat × Expectation)) :
    Prop where
  covers : Covers furthest expected L
  reported : ∀ e ∈ expected, (furthest, e) ∈ L
  reached : furthest = 0 ∨ ∃ e, e ∈ expected

variable {furthest furthest' : Nat} {expected expected' : List Expectation}
  {L L' : List (Nat × Expectation)}

theorem Covers.append (h : Covers furthest expected (L ++ L')) : Covers furthest expected L :=
  fun p e hp => h p e (List.mem_append_left _ hp)

/-- What is covered already makes no difference. -/
theorem Summary.append (h : Summary furthest expected L') (hL : Covers furthest expected L) :
    Summary furthest expected (L ++ L') where
  covers p e hp := (List.mem_append.mp hp).elim (hL p e) (h.covers p e)
  reported e he := List.mem_append_right _ (h.reported e he)
  reached := h.reached

/-- Reports have only one furthest failure. -/
theorem Summary.unique (h : Summary furthest expected L) (h' : Summary furthest' expected' L) :
    furthest = furthest' ∧ ∀ e, e ∈ expected ↔ e ∈ expected' := by
  have hle : ∀ {f f' : Nat} {es es' : List Expectation}, Summary f es L → Summary f' es' L →
      f ≤ f' := by
    intro f f' es es' h h'
    rcases h.reached with rfl | ⟨e, he⟩
    · exact Nat.zero_le _
    · have := h'.covers f e (h.reported e he)
      omega
  obtain rfl := (hle h h').antisymm (hle h' h)
  refine ⟨rfl, fun e => ⟨fun he => ?_, fun he => ?_⟩⟩
  · exact ((h'.covers _ e (h.reported e he)).resolve_left (Nat.lt_irrefl _)).2
  · exact ((h.covers _ e (h'.reported e he)).resolve_left (Nat.lt_irrefl _)).2

theorem summary_nil : Summary 0 [] [] := ⟨nofun, nofun, .inl rfl⟩

variable {σ : Type} {H : History σ}

theorem Covers.report (h : Covers H.furthest H.expected L) (p : Nat) (e : Expectation) :
    Covers (H.report p e).furthest (H.report p e).expected L := by
  intro q x hq
  have hqx := h q x hq
  unfold History.report
  dsimp only
  split
  · exact hqx
  · split
    · next hlt =>
      refine .inl ?_
      dsimp only
      omega
    · exact hqx.imp_right fun hqx => ⟨hqx.1, List.mem_cons_of_mem _ hqx.2⟩

theorem Summary.report (h : Summary H.furthest H.expected L) (p : Nat) (e : Expectation) :
    Summary (H.report p e).furthest (H.report p e).expected ((p, e) :: L) := by
  refine ⟨?_, ?_, ?_⟩
  · intro q x hq
    rcases List.mem_cons.mp hq with heq | hq
    · cases heq
      unfold History.report
      dsimp only
      split
      · next hlt => exact .inl hlt
      · split
        · exact .inr ⟨rfl, List.mem_singleton_self _⟩
        · refine .inr ⟨?_, List.mem_cons_self⟩
          dsimp only
          omega
    · exact h.covers.report p e q x hq
  · intro x hx
    unfold History.report at hx ⊢
    dsimp only at hx ⊢
    split at hx
    · next hlt =>
      rw [if_pos hlt]
      exact List.mem_cons_of_mem _ (h.reported x hx)
    · next hlt =>
      rw [if_neg hlt]
      split at hx
      · next hmore =>
        rw [if_pos hmore, List.mem_singleton.mp hx]
        exact List.mem_cons_self
      · next hmore =>
        rw [if_neg hmore]
        rcases List.mem_cons.mp hx with rfl | hx
        · rw [show H.furthest = p by omega]
          exact List.mem_cons_self
        · exact List.mem_cons_of_mem _ (h.reported x hx)
  · unfold History.report
    dsimp only
    split
    · exact h.reached
    · split
      · exact .inr ⟨e, List.mem_singleton_self _⟩
      · exact .inr ⟨e, List.mem_cons_self⟩

/-! ## Entries -/

variable {E : Setting σ} {g : Grammar}

/-- Wherever the rule of an entry is run at the offset of the entry, it gives the outcome of the
entry and makes these reports. -/
def Reruns (E : Setting σ) (g : Grammar) (e : MemoEntry) (L : List (Nat × Expectation)) : Prop :=
  ∀ t : Point σ, t.pos = e.pos → ∃ hs, ∀ᶠ m in atTop, pointRule E g m e.rule t =
    some (.ok e.result, ⟨e.nextPos, t.rule, L ++ t.reports, hs⟩)

/-- An entry stands for a run whose reports make no difference any more. -/
def Stands (E : Setting σ) (g : Grammar) (H : History σ) (e : MemoEntry) : Prop :=
  ∃ L, Reruns E g e L ∧ (e.silent = false → Covers H.furthest H.expected L)

theorem Stands.report {e : MemoEntry} (h : Stands E g H e) (p : Nat) (x : Expectation) :
    Stands E g (H.report p x) e := by
  obtain ⟨L, hL, hcovers⟩ := h
  exact ⟨L, hL, fun hs => (hcovers hs).report p x⟩

/-- The rule that is being run outside makes no difference to a rule. -/
theorem pointRule_rule {m index : Nat} {t u : Point σ} {o : Outcome Slot}
    (h : pointRule E g m index t = some (o, u)) (r : Option Nat) :
    pointRule E g m index { t with rule := r } = some (o, { u with rule := r }) := by
  cases m with
  | zero => cases h
  | succ m =>
    obtain ⟨u', hu', rfl⟩ := pointRule_eq_some.mp h
    exact pointRule_eq_some.mpr ⟨u', hu', rfl⟩

/-- A run of a rule can be repeated anywhere if the handler has no state to speak of. -/
theorem reruns (hE : E.handler.Stateless) {n index : Nat} {t u : Point σ} {result : Slot}
    (h : pointRule E g n index t = some (.ok result, u)) :
    ∃ L, u.reports = L ++ t.reports ∧
      ∀ silent, Reruns E g ⟨t.pos, index, u.pos, result, silent⟩ L := by
  have hH : Indistinct E fun _ _ => True := fun _ i a c args => ⟨hE i a c args _ _, trivial⟩
  obtain ⟨u₁, -, hsame⟩ := pointRule_refines hH n index (t.reports, t.reports) t t
    ⟨rfl, rfl, ⟨[], rfl, rfl⟩, trivial⟩ _ _ h
  obtain ⟨L, hL, -⟩ := (Apart.after.mp hsame).reports
  refine ⟨L, hL, fun silent t' hpos => ?_⟩
  obtain ⟨u', hu', hafter⟩ := pointRule_refines hH n index (t.reports, t'.reports)
    { t with rule := t'.rule } t' ⟨hpos.symm, rfl, ⟨[], rfl, rfl⟩, trivial⟩ _ _
    (pointRule_rule h t'.rule)
  rw [Apart.after] at hafter
  obtain ⟨L', hL', hreports⟩ := hafter.reports
  obtain rfl : L = L' := List.append_cancel_right (hL.symm.trans hL')
  have hend : u' = ⟨u.pos, t'.rule, L ++ t'.reports, u'.handlerState⟩ := by
    obtain ⟨pos, rule, reports, hs⟩ := u'
    rw [Point.mk.injEq]
    exact ⟨hafter.pos.symm, hafter.rule.symm, hreports, rfl⟩
  rw [hend] at hu'
  exact ⟨_, hu'⟩

/-! ## Parses that recall -/

/-- A state that accounts for the furthest failure. -/
def furthestOnly (g : Grammar) (hE : E.handler.Stateless) : Account E where
  keeps H L _ := Summary H.furthest H.expected L ∧
    ∀ T, H.memo = some T → ∀ e ∈ T.entries, Stands E g H e
  report := by
    rintro H L h p x ⟨hsummary, hentries⟩
    refine ⟨hsummary.report p x, fun T hT e he => (hentries T ?_ e he).report p x⟩
    rw [← hT, History.report]
    split
    · rfl
    · split <;> rfl
  answer := by
    rintro H L h i a c args ⟨hsummary, hentries⟩
    exact ⟨hE i a c args _ _, hsummary, hentries⟩

variable {hE : E.handler.Stateless}

/-- What is recalled is what a run would have given. -/
theorem recall_furthestOnly {w : Nat × List (Nat × Expectation)} {s : State σ} {t : Point σ}
    {index p : Nat} {result : Slot} (hst : (furthestOnly g hE).Alike w s t)
    (hhit : s.memoized? E index = some (p, result)) :
    ∃ t', (∀ᶠ m in atTop, pointRule E g m index t = some (.ok result, t')) ∧
      (furthestOnly g hE).Alike w { s with pos := p } t' := by
  obtain ⟨hsummary, hentries⟩ := hst.kept
  rw [State.memoized?] at hhit
  split at hhit
  · obtain ⟨e, he, hout⟩ := Option.map_eq_some_iff.mp hhit
    cases hout
    obtain ⟨hget, hheard⟩ := Option.filter_eq_some_iff.mp he
    obtain ⟨T, hT, hget⟩ := Option.bind_eq_some_iff.mp hget
    obtain ⟨hmem, hpos, hrule⟩ := MemoTable.get?_eq_some hget
    obtain ⟨L, hreruns, hcovers⟩ := hentries T hT e hmem
    obtain ⟨hs, hruns⟩ := hreruns t (by rw [hpos, hst.pos])
    rw [hrule] at hruns
    refine ⟨_, hruns, hst.silent, rfl, hst.rule, hst.reads, ?_, hentries⟩
    unfold heard at hsummary ⊢
    split
    · next hzero =>
      -- Where failures are reported, only entries from such a place are recalled.
      have hsilent : e.silent = false := by
        have : s.isSilent = false := by simp [State.isSilent, hst.silent, hzero]
        simpa [this] using hheard
      rw [if_pos hzero] at hsummary
      exact hsummary.append (hcovers hsilent)
    · next hzero =>
      rw [if_neg hzero] at hsummary
      exact hsummary
  · cases hhit

/-- What is kept stands for the run that gave it. -/
theorem remember_furthestOnly {w : Nat × List (Nat × Expectation)} {s : State σ} {t u : Point σ}
    {index : Nat} {result : Slot}
    (hrun : ∀ᶠ m in atTop, pointRule E g m index t = some (.ok result, u))
    (hsu : (furthestOnly g hE).Alike w s u) :
    (furthestOnly g hE).Alike w (s.remember E index t.pos result) u := by
  rw [State.remember]
  split
  · refine ⟨hsu.silent, hsu.pos, hsu.rule, hsu.reads, hsu.kept.1, fun T hT e he => ?_⟩
    obtain ⟨T', hT', rfl⟩ := Option.map_eq_some_iff.mp hT
    rcases MemoTable.mem_insert he with rfl | he
    · obtain ⟨n, hn⟩ := hrun.exists
      obtain ⟨L, hL, hreruns⟩ := reruns hE hn
      refine ⟨L, hsu.pos ▸ hreruns s.isSilent, fun hsilent => ?_⟩
      have hzero : w.1 = 0 := by
        rw [← hsu.silent]
        simpa [State.isSilent] using hsilent
      have hsummary := hsu.kept.1
      rw [heard, if_pos hzero, hL] at hsummary
      exact hsummary.covers.append
    · exact hsu.kept.2 T' hT' e he
  · exact hsu

theorem faithful_furthestOnly (hE : E.handler.Stateless) : (furthestOnly g hE).Faithful g :=
  ⟨recall_furthestOnly, remember_furthestOnly⟩

end Peg

end PegMachine
