import Mathlib
import PegMachine.Proofs.Brackets
import PegMachine.Proofs.Instrumentation
import PegMachine.Proofs.Parses
import PegMachine.Proofs.Transparency
import PegMachine.Proofs.Upkeep

/-!
# Traces and statistics agree

The wrapper around the body of a rule emits events and counts at different points, and only some of
them are passed when an outcome is recalled or an action ends the parse. Still each way through it
that gives a result emits one bracket, and counts what the events of that bracket tell. The events
between two states of a parse tell how the counters got from one to the other; this is an invariant
of evaluation from the state in which a rule was entered, and rules are put together from it.
-/

namespace PegMachine

open Peg TraceEvent

variable {σ : Type} {E : Setting σ}

namespace State

/-- The instruments of a state are in working order. -/
structure Ready (E : Setting σ) (s : State σ) : Prop where
  reads : s.tracker.Reads E.input
  counted : ∃ a, s.statistics = some a ∧ a.For E.program
  invoker : ∀ i ∈ s.currentRule, i < E.program.rules.size

/-- The rule that is being run, by its name. -/
def runningName (E : Setting σ) (s : State σ) : Option String :=
  s.currentRule.map E.program.ruleName

/-- One event leads from a state to another one and tells what was counted. -/
structure Noted (E : Setting σ) (e : TraceEvent) (s t : State σ) : Prop where
  events : t.events = e :: s.events
  rule : t.currentRule = s.currentRule
  reads : t.tracker.Reads E.input
  counted : ∃ a b, s.statistics = some a ∧ t.statistics = some b ∧ b.For E.program ∧
    a.Tells E.program [(e, s.runningName E)] b

/-- The events of whole invocations lead from a state to another one and tell what was counted. -/
structure Told (E : Setting σ) (events : List TraceEvent) (s t : State σ) : Prop where
  emitted : t.events = events.reverse ++ s.events
  nested : Nested events
  rule : t.currentRule = s.currentRule
  reads : t.tracker.Reads E.input
  counted : ∃ a b, s.statistics = some a ∧ t.statistics = some b ∧ b.For E.program ∧
    a.Tells E.program (enclosed (s.runningName E).toList events) b

/-- The events since a state are the beginning of those of whole invocations. -/
def Begun (s t : State σ) : Prop :=
  ∃ events rest, t.events = events.reverse ++ s.events ∧ Nested (events ++ rest)

section

variable {s t u : State σ} {events events' : List TraceEvent} {e : TraceEvent}

theorem Ready.told_refl (h : s.Ready E) : Told E [] s s := by
  obtain ⟨a, ha, hfor⟩ := h.counted
  exact ⟨rfl, .nil, rfl, h.reads, a, a, ha, ha, hfor, hfor.tells_refl⟩

theorem Told.ready (h : Told E events s t) (hs : s.Ready E) : t.Ready E := by
  obtain ⟨a, b, -, hb, hfor, -⟩ := h.counted
  exact ⟨h.reads, ⟨b, hb, hfor⟩, h.rule ▸ hs.invoker⟩

theorem Noted.ready (h : Noted E e s t) (hs : s.Ready E) : t.Ready E := by
  obtain ⟨a, b, -, hb, hfor, -⟩ := h.counted
  exact ⟨h.reads, ⟨b, hb, hfor⟩, h.rule ▸ hs.invoker⟩

theorem Told.trans (h : Told E events s t) (h' : Told E events' t u) :
    Told E (events ++ events') s u := by
  obtain ⟨a, b, ha, hb, -, htells⟩ := h.counted
  obtain ⟨b', c, hb', hc, hfor, htells'⟩ := h'.counted
  obtain rfl : b = b' := Option.some.inj (hb.symm.trans hb')
  have hname : t.runningName E = s.runningName E := congrArg (Option.map E.program.ruleName) h.rule
  refine ⟨?_, h.nested.append h'.nested, h'.rule.trans h.rule, h'.reads, a, c, ha, hc, hfor, ?_⟩
  · rw [h'.emitted, h.emitted, List.reverse_append, List.append_assoc]
  · rw [h.nested.enclosed_append]
    rw [hname] at htells'
    exact htells.trans htells'

/-- Only the instruments matter. -/
theorem Told.congr (h : Told E events s t) (hevents : u.events = t.events)
    (hrule : u.currentRule = t.currentRule) (hreads : u.tracker.Reads E.input)
    (hstatistics : u.statistics = t.statistics) : Told E events s u :=
  ⟨hevents.trans h.emitted, h.nested, hrule.trans h.rule, hreads, hstatistics ▸ h.counted⟩

/-- Counting what no event tells. -/
theorem Told.countCurrent (h : Told E events s t) (hs : s.Ready E) (hnames : E.program.UniqueNames)
    {f : RuleCounters → RuleCounters} (hsorted : ∀ c, c.Sorted → (f c).Sorted)
    (hf : ∀ c rule, RuleCounters.Tells E.program.ruleName E.program.rules.size rule [] c (f c)) :
    Told E events s (t.countCurrent f) := by
  have ht := h.ready hs
  unfold State.countCurrent
  cases hrule : t.currentRule with
  | none => exact h
  | some i =>
    obtain ⟨b, hb, hfor⟩ := ht.counted
    have hstep : Told E [] t (t.count i f) := by
      refine ⟨rfl, .nil, rfl, h.reads, b, b.update i f, hb, ?_, hfor.update i hsorted, ?_⟩
      · rw [State.count, hb]
        rfl
      · exact hfor.tells_update hnames (ht.invoker i hrule)
          (fun _ he => absurd he List.not_mem_nil) fun c _ => hf c _
    have hthen := h.trans hstep
    rwa [List.append_nil] at hthen

theorem Told.begun (h : Told E events s t) : Begun s t :=
  ⟨events, [], h.emitted, by rw [List.append_nil]; exact h.nested⟩

theorem Begun.of_told (h : Told E events s t) (h' : Begun t u) : Begun s u := by
  obtain ⟨begun, rest, hbegun, hnested⟩ := h'
  refine ⟨events ++ begun, rest, ?_, ?_⟩
  · rw [hbegun, h.emitted, List.reverse_append, List.append_assoc]
  · rw [List.append_assoc]
    exact h.nested.append hnested

end

/-! ## Operations -/

section

variable {s t : State σ} {o : Outcome Slot}

/-- Performing an action leaves the instruments alone, but for the place of a failure. -/
theorem perform_told {index : Nat} {action : Program.Action} {args : List Value}
    (h : s.perform E index action args = (o, t)) (hreads : s.tracker.Reads E.input) :
    t.events = s.events ∧ t.currentRule = s.currentRule ∧ t.statistics = s.statistics ∧
      t.tracker.Reads E.input := by
  rw [State.perform] at h
  dsimp only at h
  split at h
  all_goals
    cases h
    first
    | exact ⟨rfl, rfl, rfl, hreads⟩
    | exact ⟨rfl, rfl, rfl, (hreads.location _ _).2⟩

end

/-- What the events since a state tell, as an invariant of parses from it on. -/
def telling (E : Setting σ) (s : State σ) : Invariant (State σ) where
  offsets _ := True
  holds t := ∃ events, Told E events s t
  ended t := Begun s t

theorem machine_tells {s : State σ} (hs : s.Ready E) (hnames : E.program.UniqueNames) :
    (machine E).Keeps (telling E s) where
  pos _ _ := trivial
  goTo p t := fun _ ⟨events, h⟩ => ⟨⟨events, h.congr rfl rfl h.reads rfl⟩, rfl⟩
  fail e t := by
    rintro ⟨events, h⟩
    refine ⟨⟨events, ?_⟩, (Peg.memo_failFor t e).2⟩
    have hcounted := h.countCurrent hs hnames (f := (·.countFail t.isSilent)) (fun c hc => hc)
      fun c rule => RuleCounters.tells_countFail _
    rw [machine_fail]
    unfold State.failFor State.report
    dsimp only
    split
    · exact hcounted
    · split
      · exact hcounted.congr rfl rfl hcounted.reads rfl
      · split <;> exact hcounted.congr rfl rfl hcounted.reads rfl
  discard t := by
    rintro ⟨events, h⟩
    exact ⟨⟨events, h.countCurrent hs hnames (fun c hc => hc)
      fun c rule => RuleCounters.tells_countPushedFail⟩, (Peg.memo_countCurrent t _).2⟩
  hush t := fun ⟨events, h⟩ => ⟨⟨events, h.congr rfl rfl h.reads rfl⟩, rfl⟩
  unhush _ v t := fun _ ⟨events, h⟩ => ⟨⟨events, h.congr rfl rfl h.reads rfl⟩, rfl⟩
  unhush_ended _ e t _ ht := ht
  call a start args t v u := by
    rintro - ⟨events, h⟩ hrun
    obtain ⟨hevents, hrule, hstatistics, hreads⟩ := perform_told hrun h.reads
    exact ⟨⟨events, h.congr hevents hrule hreads hstatistics⟩, (Peg.memo_call hrun).2 v rfl⟩
  call_ended a start args t e u := by
    rintro - ⟨events, h⟩ hrun
    obtain ⟨hevents, hrule, hstatistics, hreads⟩ := perform_told hrun h.reads
    exact (h.congr hevents hrule hreads hstatistics).begun

/-! ## Invocations -/

section

variable (htrace : E.program.trace = true) (hnames : E.program.UniqueNames) {s t u : State σ}
  {index : Nat} (hindex : index < E.program.rules.size)
include htrace hnames hindex

/-- An event that is emitted when something was counted for its rule tells what was counted. -/
theorem noted_trace (hs : s.Ready E) {f : RuleCounters → RuleCounters}
    (hsorted : ∀ c, c.Sorted → (f c).Sorted) (kind : TraceEvent.Kind)
    (hf : ∀ (c : RuleCounters) (e : TraceEvent), c.Sorted → e.kind = kind →
      RuleCounters.Tells E.program.ruleName E.program.rules.size e.rule [(e, s.runningName E)] c
        (f c)) (start stop : Nat) (result : Option Slot) :
    ∃ e : TraceEvent, e.kind = kind ∧ e.rule = E.program.ruleName index ∧
      e.location.start = Position.ofOffset E.input start ∧
      Noted E e s ((s.count index f).trace E kind index start stop result) := by
  obtain ⟨a, ha, hfor⟩ := hs.counted
  obtain ⟨hlocation, hreads⟩ := hs.reads.location start stop
  obtain ⟨value, htraced⟩ : ∃ value, (s.count index f).trace E kind index start stop result =
      { s.count index f with
        tracker := (s.tracker.location start stop).2
        events := ⟨kind, E.program.ruleName index, (s.tracker.location start stop).1, value⟩ ::
          s.events } := by
    unfold State.trace
    rw [if_pos htrace]
    cases result with
    | none => exact ⟨_, rfl⟩
    | some slot => cases slot <;> exact ⟨_, rfl⟩
  rw [htraced]
  refine ⟨_, rfl, rfl, ?_, rfl, rfl, hreads, a, a.update index f, ha, ?_, hfor.update index hsorted,
    hfor.tells_update hnames hindex ?_ fun c hc =>
      hf c ⟨kind, E.program.ruleName index, _, value⟩ hc rfl⟩
  · rw [hlocation]
    rfl
  · change s.statistics.map (·.update index f) = _
    rw [ha]
    rfl
  · intro e he
    obtain rfl := List.mem_singleton.mp he
    rfl

theorem noted_entered (hs : s.Ready E) : ∃ e : TraceEvent, e.kind = .enter ∧
    e.rule = E.program.ruleName index ∧ e.location.start = Position.ofOffset E.input s.pos ∧
    Noted E e s (s.entered E index) :=
  noted_trace htrace hnames hindex (f := (·.countVisit s.currentRule)) hs
    (fun _ hc => hc.countVisit _) .enter
    (fun _ _ hc he => RuleCounters.tells_countVisit hnames hs.invoker hc he) s.pos s.pos none

theorem noted_recalled (hs : s.Ready E) (start nextPos : Nat) (result : Slot) :
    ∃ e : TraceEvent, e.kind.isExit = true ∧ e.rule = E.program.ruleName index ∧
      e.location.start = Position.ofOffset E.input start ∧
      Noted E e s (s.recalled E index start nextPos result) := by
  have hmoved : State.Ready E { s with pos := nextPos } := ⟨hs.reads, hs.counted, hs.invoker⟩
  have hnoted (kind : TraceEvent.Kind)
      (hkind : kind = if result.isFailed then .recalledFailure else .recalledMatch) :=
    noted_trace htrace hnames hindex
      (f := (·.countRecall s.currentRule result.isFailed s.isSilent)) hmoved
      (fun c hc => hc.countRecall _ _ _) kind fun c e hc he =>
        RuleCounters.tells_countRecall hnames hs.invoker hc _ _ (he.trans hkind)
  unfold State.recalled
  dsimp only
  split
  · next hfailed =>
    obtain ⟨e, hkind, hrule, hstart, hnoted⟩ :=
      hnoted .recalledFailure (by rw [if_pos hfailed]) start start none
    exact ⟨e, hkind ▸ rfl, hrule, hstart,
      hnoted.events, hnoted.rule, hnoted.reads, hnoted.counted⟩
  · next hmatched =>
    obtain ⟨e, hkind, hrule, hstart, hnoted⟩ :=
      hnoted .recalledMatch (by rw [if_neg hmatched]) start nextPos (some result)
    exact ⟨e, hkind ▸ rfl, hrule, hstart,
      hnoted.events, hnoted.rule, hnoted.reads, hnoted.counted⟩

theorem noted_returned (hs : s.Ready E) (start : Nat) (result : Slot) :
    ∃ e : TraceEvent, e.kind.isExit = true ∧ e.rule = E.program.ruleName index ∧
      e.location.start = Position.ofOffset E.input start ∧
      Noted E e s (s.returned E index start result) := by
  obtain ⟨memo, hmemo⟩ : ∃ memo, s.remember E index start result = { s with memo } := by
    unfold State.remember
    split
    · exact ⟨_, rfl⟩
    · exact ⟨s.memo, rfl⟩
  have hkept : State.Ready E { s with memo } := ⟨hs.reads, hs.counted, hs.invoker⟩
  have hnoted (kind : TraceEvent.Kind)
      (hkind : kind = if result.isFailed then .failed else .matched) :=
    noted_trace htrace hnames hindex
      (f := (·.countReturn result.isFailed s.isSilent)) hkept (fun c hc => hc) kind fun c e _ he =>
        RuleCounters.tells_countReturn s.currentRule _ _ (he.trans hkind)
  unfold State.returned
  rw [hmemo]
  dsimp only
  split
  · next hfailed =>
    obtain ⟨e, hkind, hrule, hstart, hnoted⟩ :=
      hnoted .failed (by rw [if_pos hfailed]) start start none
    exact ⟨e, hkind ▸ rfl, hrule, hstart,
      hnoted.events, hnoted.rule, hnoted.reads, hnoted.counted⟩
  · next hmatched =>
    obtain ⟨e, hkind, hrule, hstart, hnoted⟩ :=
      hnoted .matched (by rw [if_neg hmatched]) start s.pos (some result)
    exact ⟨e, hkind ▸ rfl, hrule, hstart,
      hnoted.events, hnoted.rule, hnoted.reads, hnoted.counted⟩

end

section

variable {s t u v w : State σ} {index : Nat} {events : List TraceEvent} {enter exit : TraceEvent}

/-- A rule that was entered runs inside its invocation. -/
theorem Noted.ready_inside (h : Noted E enter s t) (hindex : index < E.program.rules.size) :
    State.Ready E { t with currentRule := some index } := by
  obtain ⟨a, b, -, hb, hfor, -⟩ := h.counted
  refine ⟨h.reads, ⟨b, hb, hfor⟩, ?_⟩
  rintro i ⟨⟩
  exact hindex

/-- An invocation is one bracket around those of its body. -/
theorem Told.invocation (hentered : Noted E enter s t) (henter : enter.kind = .enter)
    (hrule : enter.rule = E.program.ruleName index)
    (hbody : Told E events { t with currentRule := some index } u)
    (hleft : Noted E exit v w) (hevents : v.events = u.events)
    (hback : v.currentRule = s.currentRule) (hstatistics : v.statistics = u.statistics)
    (hexit : exit.kind.isExit = true) (hsame : exit.rule = enter.rule) 
    (hstart : exit.location.start = enter.location.start) :
    Told E (enter :: (events ++ [exit])) s w := by
  obtain ⟨a, b, ha, hb, -, hfirst⟩ := hentered.counted
  obtain ⟨b', c, hb', hc, -, hinside⟩ := hbody.counted
  obtain ⟨c', d, hc', hd, hfor, hlast⟩ := hleft.counted
  obtain rfl : b = b' := Option.some.inj (hb.symm.trans hb')
  obtain rfl : c = c' := Option.some.inj (hc.symm.trans (hstatistics.symm.trans hc'))
  have hname : v.runningName E = s.runningName E := congrArg (Option.map E.program.ruleName) hback
  rw [hname] at hlast
  refine ⟨?_, .invocation henter hexit hsame hstart hbody.nested .nil, hleft.rule.trans hback,
    hleft.reads, a, d, ha, hd, hfor, ?_⟩
  · rw [hleft.events, hevents, hbody.emitted, hentered.events]
    simp
  · rw [enclosed_invocation henter hexit hbody.nested, hrule]
    have hhead : (s.runningName E).toList.head? = s.runningName E := by
      cases s.runningName E <;> rfl
    rw [hhead]
    exact hfirst.trans (hinside.trans hlast)

/-- Where the body of a rule is given up, its bracket stays open. -/
theorem Begun.invocation (hentered : Noted E enter s t) (henter : enter.kind = .enter)
    (hbody : Begun { t with currentRule := some index } u) :
    Begun s { u with currentRule := s.currentRule } := by
  obtain ⟨begun, rest, hbegun, hnested⟩ := hbody
  have hclosed : Nested (enter :: (begun ++ rest ++ [{ enter with kind := .failed }])) :=
    .invocation henter rfl rfl rfl hnested .nil
  refine ⟨enter :: begun, rest ++ [{ enter with kind := .failed }], ?_, ?_⟩
  · change u.events = _
    rw [hbegun, hentered.events]
    simp
  · rwa [List.append_assoc] at hclosed

end

end State

open State

/-- Whatever a rule does, its events tell what it counted. -/
theorem machineRule_tells {g : Grammar} (htrace : E.program.trace = true)
    (hnames : E.program.UniqueNames) (hsize : g.rules.length = E.program.rules.size)
    (fuel : Nat) {index : Nat} (hindex : index < E.program.rules.size) {s : State σ}
    (hs : s.Ready E) :
    Matches (machine E) ((telling E s).and (.of (Remembers fun _ _ _ => True)))
      (machineRule E g fuel index) fun _ _ => True := by
  induction fuel generalizing index s with
  | zero => exact matches_forever
  | succ fuel ih =>
    rintro t ⟨⟨events, htold⟩, hremembers⟩
    have ht := htold.ready hs
    have hmatches := machineRule_matches (E := E) (g := g) (L := fun _ _ _ => True)
      (fun _ _ _ _ => trivial) (fuel + 1) index t hremembers
    obtain ⟨enter, henter, hrule, hstart, hentered⟩ := noted_entered htrace hnames hindex ht
    have hinside := hentered.ready_inside hindex
    have hspreads : ((telling E { t.entered E index with currentRule := some index }).and
        (.of (Remembers fun _ _ _ => True))).Spreads E.input := fun _ _ _ _ _ => ⟨trivial, trivial⟩
    have hbody := body_matches ((machine_tells hinside hnames).and machine_keeps) hspreads
      (fun i hi => ih (hsize ▸ hi) hinside) fuel index
      { t.entered E index with currentRule := some index }
      ⟨⟨[], hinside.told_refl⟩,
        Remembers.congr (L := fun _ _ _ => True) hremembers (memo_entered t index).1⟩
    refine ⟨fun v u hrun => ⟨⟨?_, (hmatches.ok v u hrun).1⟩, (hmatches.ok v u hrun).2⟩,
      fun e u hrun => ⟨?_, trivial⟩⟩
    · rcases State.rule_eq_some.mp hrun with ⟨p, result, -, hend⟩ | ⟨-, o, w, hx, hend⟩
      · cases hend
        obtain ⟨exit, hexit, hname, hplace, hleft⟩ := noted_recalled htrace hnames hindex
          (hentered.ready ht) t.pos p v
        exact ⟨_, htold.trans (.invocation hentered henter hrule hinside.told_refl hleft rfl
          hentered.rule rfl hexit (hname.trans hrule.symm) (hplace.trans hstart.symm))⟩
      · cases hend
        obtain ⟨⟨⟨inner, hinner⟩, -⟩, -⟩ := hbody.ok v w hx
        have hback : State.Ready E { w with currentRule := t.currentRule } :=
          ⟨hinner.reads, (hinner.ready hinside).counted, ht.invoker⟩
        obtain ⟨exit, hexit, hname, hplace, hleft⟩ :=
          noted_returned htrace hnames hindex hback t.pos v
        exact ⟨_, htold.trans (.invocation hentered henter hrule hinner hleft rfl rfl rfl hexit
          (hname.trans hrule.symm) (hplace.trans hstart.symm))⟩
    · rcases State.rule_eq_some.mp hrun with ⟨p, result, -, hend⟩ | ⟨-, o, w, hx, hend⟩
      · cases hend
      · cases hend
        exact .of_told htold (.invocation hentered henter (hbody.error e w hx).1)

/-! ## Compiled programs -/

theorem Program.UniqueNames.congr {p q : Program} (h : p.UniqueNames)
    (hsize : q.rules.size = p.rules.size) (hnames : q.ruleName = p.ruleName) : q.UniqueNames := by
  rw [Program.UniqueNames, hsize, hnames]
  exact h

/-- The names of the rules of a program are told apart as those of its grammar are. -/
theorem Generated.uniqueNames_program {g : Grammar} {f : Facts} {c : Generated}
    (h : f.generate g = .ok c) (hunique : g.UniqueNames) (trace : Bool) :
    (c.program g f trace).UniqueNames := by
  have hsize : (c.program g f trace).rules.size = g.rules.length := by
    simp [Generated.program, Generate.length_of_rules (Facts.generate_eq_ok h)]
  have hname {i : Nat} (hi : i < g.rules.length) :
      (c.program g f trace).ruleName i = g.rules[i].name := by
    obtain ⟨r, hr, hsame⟩ := exists_rule h trace (List.getElem?_eq_getElem hi)
    rw [Program.ruleName, hr]
    exact hsame
  intro i hi j hj hsame
  rw [hsize] at hi hj
  rw [hname hi, hname hj] at hsame
  have hi' : i < (g.rules.map (·.name)).length := by rwa [List.length_map]
  have hj' : j < (g.rules.map (·.name)).length := by rwa [List.length_map]
  have hsame' : (g.rules.map (·.name))[i] = (g.rules.map (·.name))[j] := by simpa using hsame
  exact (List.Nodup.getElem_inj_iff hunique).mp hsame'

section

variable {P : Program} {c : Generated} {trace statistics : Bool}

theorem Program.Carries.instrumented (h : P.Carries c) :
    (P.instrumented trace statistics).Carries c := ⟨h.code, h.constants, h.actions⟩

theorem Program.Addressable.instrumented (h : P.Addressable) :
    (P.instrumented trace statistics).Addressable := ⟨h.code, h.constants, h.actions, h.rules⟩

theorem Program.UniqueNames.withMemo (h : P.UniqueNames) (switch : Bool) (flags : Nat → Bool) :
    (P.withMemo switch flags).UniqueNames :=
  h.congr Array.size_mapIdx Program.ruleName_withMemo

theorem Program.UniqueNames.instrumented (h : P.UniqueNames) :
    (P.instrumented trace statistics).UniqueNames := h.congr rfl rfl

end

/-- What the events and the counters of a parse tell, given what was counted before it. -/
theorem Parser.Runs.tells {p : Parser} {f : Facts} {g : Grammar} {c : Generated}
    (hp : p.Runs f g c) (hg : f.generate g = .ok c) (hf : f.Resolves g)
    (htrace : p.program.trace = true) (hcounted : p.program.statistics = true)
    (hnames : p.program.UniqueNames) (hstatistics : p.statistics.For p.program)
    {handler : Handler σ} {hs : σ} {input : Input} {start n : Nat}
    (hstart : start < p.program.rules.size) {o : Outcome Slot} {t : State σ}
    (hrun : p.runRule (p.setting handler input) n start
      ((p.setting handler input).initial p.statistics hs) = some (o, t)) :
    let report := p.reportOf (p.setting handler input) o t
    match o with
    | .ok _ => Nested report.events ∧
        p.statistics.Tells p.program (enclosed [] report.events) report.statistics ∧
        report.statistics.For p.program
    | .error _ => ∃ rest, Nested (report.events ++ rest) := by
  let E := p.setting handler input
  have hbefore : (E.initial p.statistics hs).statistics = some p.statistics := if_pos hcounted
  have hready : (E.initial p.statistics hs).Ready E :=
    ⟨Tracker.reads_ofInput input, ⟨_, hbefore, hstatistics⟩, nofun⟩
  have hsize : g.rules.length = p.program.rules.size := by
    rw [← Generate.length_of_rules (Facts.generate_eq_ok hg)]
    exact (Program.Carries.length_eq (E := E) hp.carries).symm
  obtain ⟨m, hm⟩ := (hp.runRule_iff hg hf (E := E) rfl).mp ⟨n, hrun⟩
  have hends := machineRule_tells (E := E) htrace hnames hsize m hstart hready
    (E.initial p.statistics hs) ⟨⟨[], hready.told_refl⟩,
      remembers_initial (L := fun _ _ _ => True) E p.statistics hs⟩
  cases o with
  | ok v =>
    obtain ⟨⟨⟨events, htold⟩, -⟩, -⟩ := hends.ok v t hm
    have hevents : t.events.reverse = events := by
      rw [htold.emitted]
      exact (congrArg List.reverse (List.append_nil _)).trans (List.reverse_reverse _)
    obtain ⟨a, b, ha, hb, hfor, htells⟩ := htold.counted
    obtain rfl : p.statistics = a := Option.some.inj (hbefore.symm.trans ha)
    have hafter : t.statistics.getD p.statistics = b := by rw [hb, Option.getD_some]
    simp only [Parser.reportOf, hevents, hafter]
    exact ⟨htold.nested, htells, hfor⟩
  | error e =>
    obtain ⟨⟨events, rest, hemitted, hnested⟩, -⟩ := hends.error e t hm
    refine ⟨rest, ?_⟩
    have hevents : t.events.reverse = events := by
      rw [hemitted]
      exact (congrArg List.reverse (List.append_nil _)).trans (List.reverse_reverse _)
    simp only [Parser.reportOf, hevents]
    exact hnested

/-- Trace and statistics tell the same of every parse: take the program of an accepted grammar with
both switched on, and any memoization. If a parse is not ended by an action, its events are whole
invocations, one in the other and one after the other, and the counters of every rule grow by what
these events tell; the statistics are then in order for the next parse. If it is ended by an action,
its events are the beginning of such. -/
theorem compile_tells {source : GrammarSource} {options : Options} {listeners : Nat}
    {compiled : Compiled} {s : Session}
    (h : compile (.ofSource source) options listeners = (.ok compiled, s)) {P : Program}
    (hP : s.program = some P) (hfit : P.Addressable) {switch : Bool} {flags : Nat → Bool}
    {p : Parser} (hp : p.program = (P.withMemo switch flags).instrumented true true)
    (hsound : p.Sound) (hstatistics : p.statistics.For p.program) (handler : Handler σ) (hs : σ)
    (input : Input) {startRule : Option String} {start : Nat}
    (hstart : p.program.startIndex startRule = .ok start) {n : Nat} {o : Outcome Slot} {t : State σ}
    (hrun : p.runRule (p.setting handler input) n start
      ((p.setting handler input).initial p.statistics hs) = some (o, t)) :
    let report := p.reportOf (p.setting handler input) o t
    match o with
    | .ok _ => Nested report.events ∧
        p.statistics.Tells p.program (enclosed [] report.events) report.statistics ∧
        report.statistics.For p.program
    | .error _ => ∃ rest, Nested (report.events ++ rest) := by
  obtain ⟨_, _, _, haccepted⟩ := compile_eq_ok h
  obtain ⟨c, trace, hg, hprogram⟩ := haccepted.program
  rw [hP, Option.some.injEq] at hprogram
  have hupkeep := Upkeep.of_compile h
  have hlinked := hupkeep.linked nofun
  obtain ⟨kept, -, hfirst⟩ := hupkeep.selects nofun
  rw [← hupkeep.starters nofun] at hfirst
  have hcarries : P.Carries c := hprogram ▸ Generated.program_carries hg trace
  have hfrom : P.StartsFrom _ s.facts.starters kept :=
    hprogram ▸ startsFrom_program hg trace hlinked.starters_ne_nil hfirst
  have hnames : P.UniqueNames :=
    hprogram ▸ Generated.uniqueNames_program hg (hupkeep.needed (by decide)).unique trace
  have hsize : p.program.rules.size = P.rules.size := by
    rw [hp]
    exact Array.size_mapIdx
  have hindex : P.startIndex startRule = .ok start := by
    rw [hp] at hstart
    have hsame : (P.withMemo switch flags).startIndex = P.startIndex := Program.startIndex_withMemo
    rwa [← hsame]
  have hruns : p.Runs s.facts s.grammar c :=
    ⟨hsound, hp ▸ hcarries.withMemo.instrumented, hp ▸ hfit.withMemo.instrumented⟩
  exact hruns.tells hg haccepted.resolved (by rw [hp]; rfl) (by rw [hp]; rfl)
    (hp ▸ (hnames.withMemo switch flags).instrumented) hstatistics
    (hsize ▸ hfrom.startIndex_lt hindex) hrun

/-- A grammar both of whose alternatives begin with a rule `x`. -/
def twoTries : GrammarSource where
  rules := [
    ⟨"start", .of (.choice [
      .of (.sequence [.of (.ruleRef "x"), .of (.literal "b" false)]),
      .of (.sequence [.of (.ruleRef "x"), .of (.literal "c" false)])]), [], none⟩,
    ⟨"x", .of (.literal "a" false), [], none⟩]

/-- The program of that grammar. -/
def twoTriesProgram : Program where
  rules := #[
    ⟨"start", false, #[1, 25, 1, 11, 18, 3, 16, 0, 2, 2, 20, 0, 21, 1, 11, 3, 4, 7, 2, 5, 4, 2, 3,
      28, 2, 3, 28, 10, 28, 0, 2, 1, 25, 1, 11, 18, 3, 16, 2, 2, 2, 20, 2, 21, 3, 11, 3, 4, 7, 2, 5,
      4, 2, 3, 28, 2, 3, 28]⟩,
    ⟨"x", false, #[16, 4, 2, 2, 20, 4, 21, 5]⟩]
  constants := #[.string "b", .expected (.literal "b"), .string "c", .expected (.literal "c"),
    .string "a", .expected (.literal "a")]
  actions := #[]
  starters := [0]
  defaultStart := 0
  memoize := false
  trace := false
  statistics := false

/-- The parser for that grammar that memoizes, traces and counts everything. -/
def twoTriesParser : Parser :=
  .interpreted ((twoTriesProgram.withMemo true fun _ => true).instrumented true true)

/-- The second try of `x` recalls the match of the first one. -/
theorem twoTries_tells :
    let p := twoTriesParser
    let E := p.setting (.none : Handler Unit) (.ofString "ac")
    ∃ v t, p.runRule E 60 0 (E.initial p.statistics ()) = some (.ok v, t) ∧
      (p.reportOf E (.ok v) t).events.map (fun e => (e.kind, e.rule)) =
        [(.enter, "start"), (.enter, "x"), (.matched, "x"), (.enter, "x"), (.recalledMatch, "x"),
          (.matched, "start")] ∧
      Nested (p.reportOf E (.ok v) t).events ∧
      p.statistics.Tells p.program (enclosed [] (p.reportOf E (.ok v) t).events)
        (p.reportOf E (.ok v) t).statistics := by
  intro p E
  have hok : (compile (.ofSource twoTries) {} 0).1.isOk = true := by decide +kernel
  have hprogram : (compile (.ofSource twoTries) {} 0).2.program = some twoTriesProgram := by
    decide +kernel
  have hends : ((p.runRule E 60 0 (E.initial p.statistics ())).map fun r =>
      (r.1.isOk, r.2.events.reverse.map fun e => (e.kind, e.rule))) =
      some (true, [(.enter, "start"), (.enter, "x"), (.matched, "x"), (.enter, "x"),
        (.recalledMatch, "x"), (.matched, "start")]) := by
    cbv
  have hfit : twoTriesProgram.Addressable := by constructor <;> decide
  have hstart : p.program.startIndex none = .ok 0 := rfl
  obtain ⟨compiled, hcompiled⟩ := exists_compiled hok
  obtain ⟨⟨o, t⟩, hrun, hresult⟩ := Option.map_eq_some_iff.mp hends
  obtain ⟨hmatched, hevents⟩ := Prod.mk.inj hresult
  cases o with
  | error e => cases hmatched
  | ok v =>
    have htells := compile_tells hcompiled hprogram hfit (p := p) rfl (Parser.sound_interpreted _)
      (Statistics.for_noStatistics _) .none () (.ofString "ac") hstart hrun
    exact ⟨v, t, hrun, hevents, htells.1, htells.2.1⟩

end PegMachine
