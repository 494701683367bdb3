import PegMachine.Proofs.Positions
import PegMachine.Proofs.Simulation

/-!
# States and points

A point leaves out of a state what its future does not depend on. What a state keeps of the past is
accounted for by the reports of the point: `Account` says how, and what has to hold of it so that a
parse and a recognizer on points come to the same results. Recalling outcomes instead of running
rules again is accounted for by the runs that they stand for.
-/

namespace PegMachine

open Filter

namespace Peg

variable {σ : Type}

/-- What a state keeps of the past. -/
structure History (σ : Type) where
  /-- Every report. -/
  reports : List (Nat × Expectation)
  /-- The offset of the furthest failure. -/
  furthest : Nat
  /-- What was expected there. -/
  expected : List Expectation
  /-- The memo table. -/
  memo : Option MemoTable
  /-- The state of the handler. -/
  handlerState : σ

/-- The history after one more report. -/
def History.report (H : History σ) (p : Nat) (e : Expectation) : History σ :=
  let H := { H with reports := (p, e) :: H.reports }
  if p < H.furthest then H
  else if H.furthest < p then { H with furthest := p, expected := [e] }
  else { H with expected := e :: H.expected }

end Peg

namespace State

variable {σ : Type}

/-- What the state keeps of the past. -/
def history (s : State σ) : Peg.History σ where
  reports := s.reports
  furthest := s.furthest
  expected := s.expected
  memo := s.memo
  handlerState := s.handlerState

theorem history_report (s : State σ) (e : Expectation) :
    (s.report e).history = s.history.report s.pos e := by
  simp only [report, Peg.History.report, history]
  by_cases hless : s.pos < s.furthest
  · simp only [hless, if_true]
  · by_cases hmore : s.furthest < s.pos <;> simp only [hless, hmore, if_true, if_false]

end State

namespace Peg

variable {σ : Type} (E : Setting σ)

/-- What a history has to do with the reports and the handler of a recognizer on points. -/
structure Account where
  /-- The history is that of these reports and this state of the handler. -/
  keeps : History σ → List (Nat × Expectation) → σ → Prop
  report : ∀ {H L h} p e, keeps H L h → keeps (H.report p e) ((p, e) :: L) h
  answer : ∀ {H L h} i a c args, keeps H L h →
    (E.handler i a c args H.handlerState).1 = (E.handler i a c args h).1 ∧
      keeps { H with handlerState := (E.handler i a c args H.handlerState).2 } L
        (E.handler i a c args h).2

variable {E}

/-- The reports that are heard: those at a point, or in a region without reports those before
it. A world is the depth of such regions with the reports before them. -/
def heard (w : Nat × List (Nat × Expectation)) (t : Point σ) : List (Nat × Expectation) :=
  if w.1 = 0 then t.reports else w.2

namespace Account

variable (A : Account E)

/-- A state and a point are alike. -/
structure Alike (w : Nat × List (Nat × Expectation)) (s : State σ) (t : Point σ) : Prop where
  silent : s.silent = w.1
  pos : s.pos = t.pos
  rule : s.currentRule = t.rule
  reads : s.tracker.Reads E.input
  kept : A.keeps s.history (heard w t) t.handlerState

/-- The relation of states to points; once a parse was ended, only the history counts. -/
def relation : Relation (Nat × List (Nat × Expectation)) (State σ) (Point σ) where
  states := A.Alike
  ends w s t := A.keeps s.history (heard w t) t.handlerState

variable {A} {w : Nat × List (Nat × Expectation)} {s s' : State σ} {t : Point σ}

namespace Alike

/-- What the relation does not look at may change. -/
theorem congr (h : A.Alike w s t) (hsilent : s'.silent = s.silent) (hpos : s'.pos = s.pos)
    (hrule : s'.currentRule = s.currentRule) (hreads : s'.tracker.Reads E.input)
    (hhistory : s'.history = s.history) : A.Alike w s' t where
  silent := hsilent.trans h.silent
  pos := hpos.trans h.pos
  rule := hrule.trans h.rule
  reads := hreads
  kept := hhistory ▸ h.kept

theorem count (h : A.Alike w s t) (rule : Nat) (f : RuleCounters → RuleCounters) :
    A.Alike w (s.count rule f) t := h.congr rfl rfl rfl h.reads rfl

theorem countCurrent (h : A.Alike w s t) (f : RuleCounters → RuleCounters) :
    A.Alike w (s.countCurrent f) t := by
  unfold State.countCurrent
  split
  · exact h.count _ f
  · exact h

theorem trace (h : A.Alike w s t) (kind : TraceEvent.Kind) (rule start stop : Nat)
    (result : Option Slot) : A.Alike w (s.trace E kind rule start stop result) t := by
  unfold State.trace
  split
  · exact h.congr rfl rfl rfl (h.reads.location start stop).2 rfl
  · exact h

theorem entered (h : A.Alike w s t) (index : Nat) : A.Alike w (s.entered E index) t :=
  (h.count _ _).trace _ _ _ _ _

theorem report (h : A.Alike (0, w.2) s t) (e : Expectation) :
    A.Alike (0, w.2) (s.report e) { t with reports := (t.pos, e) :: t.reports } := by
  have hkept : A.keeps (s.report e).history ((t.pos, e) :: t.reports) t.handlerState := by
    rw [State.history_report, h.pos]
    exact A.report t.pos e h.kept
  have hsame : (s.report e).silent = s.silent ∧ (s.report e).pos = s.pos ∧
      (s.report e).currentRule = s.currentRule ∧ (s.report e).tracker = s.tracker := by
    simp only [State.report]
    split
    · exact ⟨rfl, rfl, rfl, rfl⟩
    · split <;> exact ⟨rfl, rfl, rfl, rfl⟩
  obtain ⟨hsilent, hpos, hrule, htracker⟩ := hsame
  exact ⟨hsilent.trans h.silent, hpos.trans h.pos, hrule.trans h.rule, htracker ▸ h.reads, hkept⟩

theorem failFor (h : A.Alike w s t) (e : Expectation) :
    A.Alike w (s.failFor e) { t with reports := (t.pos, e) :: t.reports } := by
  obtain ⟨k, L⟩ := w
  have hcount := h.countCurrent (·.countFail s.isSilent)
  unfold State.failFor
  cases k with
  | zero =>
    have hsilent : s.isSilent = false := by simp [State.isSilent, h.silent]
    rw [if_neg (by simp [hsilent])]
    exact hcount.report (w := (0, L)) e
  | succ k =>
    have hsilent : s.isSilent = true := by simp [State.isSilent, h.silent]
    rw [if_pos hsilent]
    exact ⟨hcount.silent, hcount.pos, hcount.rule, hcount.reads, hcount.kept⟩

theorem recalled {p : Nat} (h : A.Alike w { s with pos := p } t) (index start : Nat)
    (result : Slot) : A.Alike w (s.recalled E index start p result) t := by
  unfold State.recalled
  dsimp only
  split <;> exact (h.count _ _).trace _ _ _ _ _

theorem returned {index start : Nat} {result : Slot}
    (h : A.Alike w (s.remember E index start result) t) :
    A.Alike w (s.returned E index start result) t := by
  unfold State.returned
  dsimp only
  split <;> exact (h.count _ _).trace _ _ _ _ _

/-- An action is run alike. -/
theorem call (h : A.Alike w s t) (a : Program.Action) (start : Nat) (args : List Value) :
    ((machine E).call a start args s).1 = ((points E).call a start args t).1 ∧
      A.relation.after w ((machine E).call a start args s).1 ((machine E).call a start args s).2
        ((points E).call a start args t).2 := by
  have hcontext : { s with savedPos := start }.actionContext E = t.context E start := by
    simp only [State.actionContext, Point.context, h.pos, h.rule]
  obtain ⟨hanswer, hkept⟩ :=
    A.answer (actionIndex E.program a) a (t.context E start) args h.kept
  have hlocation := h.reads.location start s.pos
  rw [machine_call, State.perform, hcontext]
  simp only [points, Point.call]
  rcases hrun : E.handler (actionIndex E.program a) a (t.context E start) args s.handlerState
    with ⟨answer, hs⟩
  rcases hrun' : E.handler (actionIndex E.program a) a (t.context E start) args t.handlerState
    with ⟨answer', hs'⟩
  simp only [State.history, hrun, hrun'] at hanswer hkept
  simp only [hrun, hrun']
  subst hanswer
  have hplace : (t.context E start).location = (s.tracker.location start s.pos).1 := by
    rw [hlocation.1, h.pos]
    rfl
  rcases answer with (- | description | message | -) | value
  · exact ⟨rfl, h.silent, rfl, h.rule, h.reads, hkept⟩
  · exact ⟨by simp only [State.locate, hplace], hkept⟩
  · exact ⟨by simp only [State.locate, hplace], hkept⟩
  · exact ⟨rfl, hkept⟩
  · exact ⟨rfl, h.silent, h.pos, h.rule, h.reads, hkept⟩

end Alike

/-- A parse and a recognizer on points do the same. -/
theorem linked (A : Account E) : Linked (machine E) (points E) A.relation where
  pos_eq h := h.pos
  after_goTo p h := ⟨h.silent, rfl, h.rule, h.reads, h.kept⟩
  after_fail e h := h.failFor e
  after_discard h := h.countCurrent _
  after_call a p args h := h.call a p args
  after_hush := by
    intro w s t h
    refine ⟨(w.1 + 1, heard w t), ⟨congrArg (· + 1) h.silent, h.pos, h.rule, h.reads, h.kept⟩, ?_⟩
    rintro (e | v) s' t' h'
    · exact h'
    · have hsilent : s'.silent - 1 = w.1 := by rw [h'.silent, Nat.add_sub_cancel]
      exact ⟨hsilent, h'.pos, h'.rule, h'.reads, h'.kept⟩

end Account

/-! ## Points among themselves -/

/-- What the answers of the handler do not tell apart. -/
def Indistinct (E : Setting σ) (H : σ → σ → Prop) : Prop :=
  ∀ {h h'}, H h h' → ∀ i a c args, (E.handler i a c args h).1 = (E.handler i a c args h').1 ∧
    H (E.handler i a c args h).2 (E.handler i a c args h').2

theorem indistinct_eq : Indistinct E (· = ·) := by
  rintro h _ rfl i a c args
  exact ⟨rfl, rfl⟩

/-- Points are apart in the reports before some time and in the state of the handler. -/
structure Apart (H : σ → σ → Prop) (w : List (Nat × Expectation) × List (Nat × Expectation))
    (t u : Point σ) : Prop where
  pos : t.pos = u.pos
  rule : t.rule = u.rule
  reports : ∃ L, t.reports = L ++ w.1 ∧ u.reports = L ++ w.2
  handlerState : H t.handlerState u.handlerState

/-- The relation of points that are apart. -/
def apart (H : σ → σ → Prop) :
    Relation (List (Nat × Expectation) × List (Nat × Expectation)) (Point σ) (Point σ) :=
  ⟨Apart H, Apart H⟩

theorem Apart.after {H : σ → σ → Prop}
    {w : List (Nat × Expectation) × List (Nat × Expectation)} {t u : Point σ}
    {o : Outcome Slot} : (apart H).after w o t u ↔ Apart H w t u := by
  cases o <;> rfl

theorem Apart.call {H : σ → σ → Prop} (hH : Indistinct E H)
    {w : List (Nat × Expectation) × List (Nat × Expectation)} {t u : Point σ} (h : Apart H w t u)
    (a : Program.Action) (start : Nat) (args : List Value) :
    (t.call E a start args).1 = (u.call E a start args).1 ∧
      Apart H w (t.call E a start args).2 (u.call E a start args).2 := by
  have hcontext : t.context E start = u.context E start := by
    simp only [Point.context, h.pos, h.rule]
  obtain ⟨hanswer, hnext⟩ :=
    hH h.handlerState (actionIndex E.program a) a (u.context E start) args
  simp only [Point.call, hcontext]
  rcases hrun : E.handler (actionIndex E.program a) a (u.context E start) args t.handlerState
    with ⟨answer, hs⟩
  rcases hrun' : E.handler (actionIndex E.program a) a (u.context E start) args u.handlerState
    with ⟨answer', hs'⟩
  simp only [hrun, hrun'] at hanswer hnext ⊢
  subst hanswer
  rcases answer with (- | description | message | -) | value
  · exact ⟨rfl, rfl, h.rule, h.reports, hnext⟩
  all_goals exact ⟨rfl, h.pos, h.rule, h.reports, hnext⟩

theorem linked_apart {H : σ → σ → Prop} (hH : Indistinct E H) :
    Linked (points E) (points E) (apart H) where
  pos_eq h := h.pos
  after_goTo p h := ⟨rfl, h.rule, h.reports, h.handlerState⟩
  after_fail e h := by
    obtain ⟨L, ht, hu⟩ := h.reports
    exact ⟨h.pos, h.rule, ⟨(_, e) :: L, congrArg _ ht, by rw [h.pos]; exact congrArg _ hu⟩,
      h.handlerState⟩
  after_discard h := h
  after_hush {w t u} h := ⟨w, h, fun o t' u' h' => by
    rw [Apart.after] at h' ⊢
    exact ⟨h'.pos, h'.rule, h.reports, h'.handlerState⟩⟩
  after_call a p args h := by
    obtain ⟨ho, hafter⟩ := Apart.call hH h a p args
    exact ⟨ho, Apart.after.mpr hafter⟩

/-! ## Rules -/

variable {g : Grammar}

theorem pointRule_eq_some {n index : Nat} {t : Point σ} {r : Outcome Slot × Point σ} :
    pointRule E g (n + 1) index t = some r ↔
      ∃ u, body (points E) E.input g (pointRule E g n) n index { t with rule := some index } =
        some (r.1, u) ∧ r.2 = { u with rule := t.rule } := by
  simp only [pointRule]
  cases body (points E) E.input g (pointRule E g n) n index { t with rule := some index } with
  | none => simp
  | some out =>
    obtain ⟨o, u⟩ := out
    obtain ⟨o', u'⟩ := r
    simp [eq_comm, and_comm]

/-- A rule ends as its body ends. -/
theorem eventually_pointRule {index : Nat} {t u : Point σ} {o : Outcome Slot}
    (h : ∀ᶠ m in atTop, body (points E) E.input g (pointRule E g m) m index
      { t with rule := some index } = some (o, u)) :
    ∀ᶠ m in atTop, pointRule E g m index t = some (o, { u with rule := t.rule }) := by
  refine eventually_of_succ ?_
  filter_upwards [h] with m hm
  exact pointRule_eq_some.mpr ⟨u, hm, rfl⟩

/-- Rules end alike at points that are apart. -/
theorem pointRule_refines {H : σ → σ → Prop} (hH : Indistinct E H) (n index : Nat)
    (w : List (Nat × Expectation) × List (Nat × Expectation)) :
    Refines (apart H) w (pointRule E g n index) fun m => pointRule E g m index := by
  induction n generalizing index w with
  | zero => exact .forever
  | succ n ih =>
    intro t u htu o t' hrun
    obtain ⟨t₁, hbody, rfl⟩ := pointRule_eq_some.mp hrun
    have hinside : Apart H w { t with rule := some index } { u with rule := some index } :=
      ⟨htu.pos, rfl, htu.reports, htu.handlerState⟩
    obtain ⟨u₁, hu₁, hafter⟩ :=
      (linked_apart hH).body (fun w index => ih index w) n index w _ _ hinside _ _ hbody
    rw [Apart.after] at hafter
    exact ⟨_, eventually_pointRule hu₁,
      Apart.after.mpr ⟨hafter.pos, htu.rule, hafter.reports, hafter.handlerState⟩⟩

/-- More fuel does not change how a rule ends. -/
theorem pointRule_mono {n index : Nat} {t : Point σ} {r : Outcome Slot × Point σ}
    (h : pointRule E g n index t = some r) :
    ∀ᶠ m in atTop, pointRule E g m index t = some r := by
  obtain ⟨u, hu, hsame⟩ := pointRule_refines indistinct_eq n index ([], []) t t
    ⟨rfl, rfl, ⟨t.reports, by simp⟩, rfl⟩ _ _ h
  rw [Apart.after] at hsame
  obtain ⟨L, hL, hL'⟩ := hsame.reports
  have : r.2 = u := by
    obtain ⟨o, ⟨pos, rule, reports, hs⟩⟩ := r
    obtain ⟨pos', rule', reports', hs'⟩ := u
    simp only [Point.mk.injEq]
    exact ⟨hsame.pos, hsame.rule, hL.trans hL'.symm, hsame.handlerState⟩
  rwa [← this] at hu

namespace Account

/-- What was recalled, or is kept to be recalled, is accounted for by runs on points. -/
structure Faithful (A : Account E) (g : Grammar) : Prop where
  recalls : ∀ {w s t index p result}, A.Alike w s t →
    s.memoized? E index = some (p, result) →
    ∃ t', (∀ᶠ m in atTop, pointRule E g m index t = some (.ok result, t')) ∧
      A.Alike w { s with pos := p } t'
  remember : ∀ {w s t u index result},
    (∀ᶠ m in atTop, pointRule E g m index t = some (.ok result, u)) → A.Alike w s u →
    A.Alike w (s.remember E index t.pos result) u

variable {A : Account E}

/-- A parse that runs a rule leaves it as the point does. -/
theorem Faithful.left (hA : A.Faithful g) {w : Nat × List (Nat × Expectation)} {s s' : State σ}
    {t u : Point σ} {index : Nat} {o : Outcome Slot} (hst : A.Alike w s t)
    (hrun : ∀ᶠ m in atTop, pointRule E g m index t = some (o, { u with rule := t.rule }))
    (hafter : A.relation.after w o s' u) :
    A.relation.after w o (State.left E s index o s') { u with rule := t.rule } := by
  cases o with
  | error e => exact hafter
  | ok result =>
    have hleft : A.Alike w { s' with currentRule := s.currentRule } { u with rule := t.rule } :=
      ⟨hafter.silent, hafter.pos, hst.rule, hafter.reads, hafter.kept⟩
    have hremember := hA.remember hrun hleft
    rw [← hst.pos] at hremember
    exact hremember.returned

/-- Rules on points do what rules do in a parse. -/
theorem Faithful.machineRule_refines (hA : A.Faithful g) (n index : Nat)
    (w : Nat × List (Nat × Expectation)) :
    Refines A.relation w (machineRule E g n index) fun m => pointRule E g m index := by
  induction n generalizing index w with
  | zero => exact .forever
  | succ n ih =>
    intro s t hst o s' hrun
    have hentered := hst.entered index
    rcases State.rule_eq_some.mp hrun with ⟨p, result, hhit, hend⟩ | ⟨-, o₁, s₁, hbody, hend⟩
    · cases hend
      obtain ⟨t', ht', halike⟩ := hA.recalls hentered hhit
      exact ⟨t', ht', halike.recalled index s.pos result⟩
    · cases hend
      have hinside : A.Alike w { s.entered E index with currentRule := some index }
          { t with rule := some index } :=
        ⟨hentered.silent, hentered.pos, rfl, hentered.reads, hentered.kept⟩
      obtain ⟨u, hu, hafter⟩ :=
        A.linked.body (fun w index => ih index w) n index w _ _ hinside _ _ hbody
      have hrun := eventually_pointRule hu
      exact ⟨_, hrun, hA.left hst hrun hafter⟩

/-- Rules in a parse do what rules do on points. -/
theorem Faithful.pointRule_refines (hA : A.Faithful g) (n index : Nat)
    (w : Nat × List (Nat × Expectation)) :
    Refines A.relation.symm w (pointRule E g n index) fun m => machineRule E g m index := by
  induction n generalizing index w with
  | zero => exact .forever
  | succ n ih =>
    intro t s hst o t' hrun
    have hentered : A.Alike w (s.entered E index) t := Alike.entered hst index
    have hrun' := pointRule_mono hrun
    cases hmemo : (s.entered E index).memoized? E index with
    | some hit =>
      obtain ⟨p, result⟩ := hit
      obtain ⟨t'', ht'', halike⟩ := hA.recalls hentered hmemo
      obtain ⟨m, hm, hm'⟩ := (hrun'.and ht'').exists
      rw [hm] at hm'
      cases hm'
      refine ⟨_, eventually_of_succ ?_, halike.recalled index s.pos result⟩
      exact .of_forall fun _ => State.rule_eq_some.mpr (.inl ⟨p, result, hmemo, rfl⟩)
    | none =>
      obtain ⟨u, hbody, rfl⟩ := pointRule_eq_some.mp hrun
      have hinside : A.Alike w { s.entered E index with currentRule := some index }
          { t with rule := some index } :=
        ⟨hentered.silent, hentered.pos, rfl, hentered.reads, hentered.kept⟩
      obtain ⟨s₁, hs₁, hafter⟩ :=
        A.linked.symm.body (fun w index => ih index w) n index w _ _ hinside _ _ hbody
      rw [Relation.after_symm] at hafter
      refine ⟨_, eventually_of_succ ?_, Relation.after_symm.mpr (hA.left hst hrun' hafter)⟩
      filter_upwards [hs₁] with m hm
      exact State.rule_eq_some.mpr (.inr ⟨hmemo, o, s₁, hm, rfl⟩)

/-- The body of a rule is evaluated alike in a parse and on points. -/
theorem Faithful.body_iff (hA : A.Faithful g) {index : Nat} {w : Nat × List (Nat × Expectation)}
    {s : State σ} {t : Point σ} (hst : A.Alike w s t) :
    (∀ n o s', body (machine E) E.input g (machineRule E g n) n index s = some (o, s') →
      ∃ t', (∀ᶠ m in atTop, body (points E) E.input g (pointRule E g m) m index t = some (o, t')) ∧
        A.relation.after w o s' t') ∧
    ∀ n o t', body (points E) E.input g (pointRule E g n) n index t = some (o, t') →
      ∃ s', (∀ᶠ m in atTop, body (machine E) E.input g (machineRule E g m) m index s = some (o, s'))
        ∧ A.relation.after w o s' t' := by
  refine ⟨fun n o s' h => ?_, fun n o t' h => ?_⟩
  · exact A.linked.body (fun w index => hA.machineRule_refines n index w) n index w s t hst o s' h
  · obtain ⟨s', hs', hafter⟩ := A.linked.symm.body
      (fun w index => hA.pointRule_refines n index w) n index w t s hst o t' h
    exact ⟨s', hs', Relation.after_symm.mp hafter⟩

end Account

end Peg

end PegMachine
