import Mathlib
import PegMachine.Proofs.Movement
import PegMachine.Proofs.Transparency

/-!
# Failed parses tell the furthest failure

A parse keeps a running maximum of the offsets at which it failed, and what was expected there. With
all reports of the parse on record, the syntax error at the end tells of just those at the furthest
offset, in a fixed order, so it does not depend on when they were made. With memoization the reports
are those of the parse that runs every rule again, as long as the answers of the handler do not
depend on how often it was asked.
-/

namespace PegMachine

open Filter Peg

/-! ## What an error tells -/

/-- An error tells the furthest of some reports: the greatest offset, or the start if there are no
reports, what was expected there, sorted and each thing once, and the character found there. -/
structure SyntaxError.TellsFurthest (input : Input) (reports : List (Nat × Expectation))
    (e : SyntaxError) : Prop where
  furthest : ∀ r ∈ reports, r.1 ≤ e.location.start.offset
  reached : (reports = [] ∧ e.location.start.offset = 0) ∨
    ∃ x, (e.location.start.offset, x) ∈ reports
  expected : ∀ x, x ∈ e.expected ↔ (e.location.start.offset, x) ∈ reports
  sorted : e.expected.Pairwise fun a b => Expectation.le a b = true ∧ a ≠ b
  found : e.found = (input.rest e.location.start.offset).head?.map String.singleton
  location : e.location = .ofRange input e.location.start.offset
    (e.location.start.offset + (input.rest e.location.start.offset).head?.elim 0 Char.utf8Size)
  message : e.message = SyntaxError.messageFor e.expected e.found

theorem Expectation.sorted_tidy (es : List Expectation) :
    (tidy es).Pairwise fun a b => le a b = true ∧ a ≠ b :=
  pairwise_dropRepeats (@List.pairwise_mergeSort _ le (fun _ _ _ => le_trans)
    (fun a b => (Bool.or_eq_true _ _).mpr (le_total a b)) es)

namespace SyntaxError.TellsFurthest

variable {input : Input} {reports reports' : List (Nat × Expectation)} {e e' : SyntaxError}

theorem offset_le (h : e.TellsFurthest input reports) (h' : e'.TellsFurthest input reports')
    (hsame : ∀ r, r ∈ reports → r ∈ reports') :
    e.location.start.offset ≤ e'.location.start.offset := by
  rcases h.reached with ⟨-, hzero⟩ | ⟨x, hx⟩
  · exact hzero ▸ Nat.zero_le _
  · exact h'.furthest _ (hsame _ hx)

/-- The furthest of some reports can be told in one way only, and their order does not matter. -/
theorem unique (h : e.TellsFurthest input reports) (h' : e'.TellsFurthest input reports')
    (hsame : ∀ r, r ∈ reports' ↔ r ∈ reports) : e' = e := by
  have hoffset : e'.location.start.offset = e.location.start.offset :=
    (h'.offset_le h fun r => (hsame r).mp).antisymm (h.offset_le h' fun r => (hsame r).mpr)
  have hexpected : e'.expected = e.expected := by
    have : Std.Irrefl fun a b : Expectation => Expectation.le a b = true ∧ a ≠ b :=
      ⟨fun _ h => h.2 rfl⟩
    have : Std.Antisymm fun a b : Expectation => Expectation.le a b = true ∧ a ≠ b :=
      ⟨fun _ _ hab hba => Expectation.le_antisymm hab.1 hba.1⟩
    exact h'.sorted.eq_of_mem_iff h.sorted fun x => by
      rw [h'.expected, h.expected, hoffset, hsame]
  have hfound : e'.found = e.found := by rw [h'.found, h.found, hoffset]
  have hlocation : e'.location = e.location := by rw [h'.location, h.location, hoffset]
  have hmessage : e'.message = e.message := by rw [h'.message, h.message, hexpected, hfound]
  obtain ⟨message, expected, found, location⟩ := e'
  obtain ⟨message', expected', found', location'⟩ := e
  rw [SyntaxError.mk.injEq]
  exact ⟨hmessage, hexpected, hfound, hlocation⟩

end SyntaxError.TellsFurthest

variable {σ : Type} {E : Setting σ} {g : Grammar}

/-- A failure that is the furthest of some reports inside the input is told as such. -/
theorem State.failure_tellsFurthest {s : State σ} {reports : List (Nat × Expectation)}
    (hreads : s.tracker.Reads E.input) (hsummary : Summary s.furthest s.expected reports)
    (hinside : ∀ r ∈ reports, r.1 ≤ E.input.size) :
    ∃ e, s.failure E = .mismatch e ∧ e.TellsFurthest E.input reports := by
  have hreached : (reports = [] ∧ s.furthest = 0) ∨ ∃ x, (s.furthest, x) ∈ reports := by
    rcases hsummary.reached with hzero | ⟨x, hx⟩
    · cases reports with
      | nil => exact .inl ⟨rfl, hzero⟩
      | cons r rest =>
        rcases hsummary.covers r.1 r.2 List.mem_cons_self with hlt | ⟨hoffset, -⟩
        · omega
        · exact .inr ⟨r.2, hoffset ▸ List.mem_cons_self⟩
    · exact .inr ⟨x, hsummary.reported x hx⟩
  have hle : s.furthest ≤ E.input.size := by
    rcases hreached with ⟨-, hzero⟩ | ⟨x, hx⟩
    · omega
    · exact hinside _ hx
  have hoffset (stop : Nat) :
      (Location.ofRange E.input s.furthest stop).start.offset = s.furthest :=
    Nat.min_eq_left hle
  have hfailure : s.failure E = .mismatch (.ofExpected s.expected
      ((E.input.rest s.furthest).head?.map String.singleton) (Location.ofRange E.input s.furthest
        (s.furthest + (E.input.rest s.furthest).head?.elim 0 Char.utf8Size))) := by
    simp only [State.failure, (hreads.location _ _).1]
  refine ⟨_, hfailure, ?_⟩
  constructor
  case message => rfl
  all_goals simp only [SyntaxError.ofExpected, hoffset]
  case furthest =>
    intro r hr
    rcases hsummary.covers r.1 r.2 hr with hlt | ⟨hoffset, -⟩
    · exact hlt.le
    · exact hoffset.le
  case reached => exact hreached
  case expected =>
    intro x
    rw [Expectation.mem_tidy]
    refine ⟨hsummary.reported x, fun hx => ?_⟩
    exact ((hsummary.covers _ x hx).resolve_left (Nat.lt_irrefl _)).2
  case sorted => exact Expectation.sorted_tidy _

/-! ## Reports lie inside the input -/

namespace Peg

/-- A point and its reports are at boundaries of the input. -/
def within (σ : Type) (input : Input) : Invariant (Point σ) where
  offsets p := ∃ cs, input.rest? p = some cs
  holds t := (∃ cs, input.rest? t.pos = some cs) ∧
    ∀ r ∈ t.reports, ∃ cs, input.rest? r.1 = some cs
  ended _ := True

theorem spreads_within : (within σ E.input).Spreads E.input := by
  rintro a shape text ⟨cs, ha⟩ htaken
  obtain ⟨rest, rfl⟩ := taken?_prefix ha htaken
  exact ⟨rest, Input.rest?_add ha⟩

theorem points_within : (points E).Keeps (within σ E.input) where
  pos _ ht := ht.1
  goTo _ _ hp ht := ⟨⟨hp, ht.2⟩, rfl⟩
  fail e t ht := ⟨⟨ht.1, List.forall_mem_cons.mpr ⟨ht.1, ht.2⟩⟩, rfl⟩
  discard _ ht := ⟨ht, rfl⟩
  hush _ ht := ⟨ht, rfl⟩
  unhush _ _ _ ht hu := ⟨⟨hu.1, ht.2⟩, rfl⟩
  unhush_ended _ _ _ _ _ := trivial
  call := by
    intro a start args t v u hstart ht hrun
    simp only [points, Point.call] at hrun
    split at hrun <;> cases hrun
    · exact ⟨⟨ht.1, ht.2⟩, rfl⟩
    · exact ⟨⟨hstart, ht.2⟩, rfl⟩
  call_ended _ _ _ _ _ _ _ _ _ := trivial

theorem pointRule_within (fuel index : Nat) :
    Matches (points E) (within σ E.input) (pointRule E g fuel index) fun _ _ => True := by
  induction fuel generalizing index with
  | zero => exact matches_forever
  | succ fuel ih =>
    intro t ht
    have hbody := (body_matches (g := g) points_within spreads_within (fun i _ => ih i)
      fuel index)
      { t with rule := some index } ht
    refine ⟨fun v t' hrun => ?_, fun _ _ _ => trivial⟩
    obtain ⟨u, hu, rfl : t' = _⟩ := pointRule_eq_some.mp hrun
    obtain ⟨hinside, hleft⟩ := hbody.ok v u hu
    exact ⟨hinside, hleft.weaken fun _ => trivial⟩

/-! ## Parses without memoization -/

/-- A state that has every report on record and accounts for the furthest failure. -/
def recorded (E : Setting σ) : Account E where
  keeps H L h := H.reports = L ∧ H.handlerState = h ∧ Summary H.furthest H.expected L
  report := by
    rintro H L h p e ⟨hL, hh, hsummary⟩
    refine ⟨?_, ?_, hsummary.report p e⟩
    all_goals
      simp only [History.report]
      split
    · exact congrArg _ hL
    · split <;> exact congrArg _ hL
    · exact hh
    · split <;> exact hh
  answer := by
    rintro H L _ i a c args ⟨hL, rfl, hsummary⟩
    exact ⟨rfl, hL, rfl, hsummary⟩

/-- Nothing is recalled or kept if memoization is off. -/
theorem faithful_recorded (h : E.program.memoize = false) : (recorded E).Faithful g where
  recalls := by
    intro w s t index p result _ hhit
    rw [State.memoized?, Program.isMemoized, h] at hhit
    cases hhit
  remember := by
    intro w s t u index result _ hsu
    rw [State.remember, Program.isMemoized, h]
    exact hsu

end Peg

variable {p q : Parser} {f : Facts} {c : Generated} {handler : Handler σ} {hs : σ} {input : Input}
  {i : Nat} {v : Slot}

/-- Where a parse ends, an evaluation on points ends, and its reports account for the furthest
failure of the parse. -/
theorem Parser.Runs.exists_point (hp : p.Runs f g c) (hg : f.generate g = .ok c)
    (hf : f.Resolves g) (hpure : p.program.memoize = false ∨ handler.Stateless) {n : Nat}
    {t : State σ} (hrun : p.runRule (p.setting handler input) n i
      ((p.setting handler input).initial p.statistics hs) = some (.ok v, t)) :
    ∃ m u, pointRule (p.setting handler input) g m i ⟨0, none, [], hs⟩ = some (.ok v, u) ∧
      t.pos = u.pos ∧ t.tracker.Reads input ∧ Summary t.furthest t.expected u.reports := by
  let E := p.setting handler input
  obtain ⟨k, hk⟩ := (hp.runRule_iff hg hf (E := E) rfl).mp ⟨n, hrun⟩
  by_cases hmemo : p.program.memoize = false
  · have hstart : (recorded E).Alike (0, []) (E.initial p.statistics hs) ⟨0, none, [], hs⟩ :=
      ⟨rfl, rfl, rfl, Tracker.reads_ofInput _, rfl, rfl, summary_nil⟩
    obtain ⟨u, hu, hafter⟩ := (faithful_recorded (E := E) hmemo).machineRule_refines k i (0, []) _ _
      hstart _ _ hk
    obtain ⟨m, hm⟩ := hu.exists
    have halike : (recorded E).Alike (0, []) t u := hafter
    exact ⟨m, u, hm, halike.pos, halike.reads, halike.kept.2.2⟩
  · have hE : E.handler.Stateless := hpure.resolve_left hmemo
    obtain ⟨u, hu, hafter⟩ := (faithful_furthestOnly hE).machineRule_refines k i (0, []) _ _
      (alike_initial E hE g p.statistics hs) _ _ hk
    obtain ⟨m, hm⟩ := hu.exists
    have halike : (furthestOnly g hE).Alike (0, []) t u := hafter
    exact ⟨m, u, hm, halike.pos, halike.reads, halike.kept.1⟩

/-- Where an evaluation on points ends, a parse without memoization ends with the same reports. -/
theorem Parser.Runs.exists_state (hq : q.Runs f g c) (hg : f.generate g = .ok c)
    (hf : f.Resolves g) (hmemo : q.program.memoize = false) {m : Nat} {u : Point σ}
    (hrun : pointRule (q.setting handler input) g m i ⟨0, none, [], hs⟩ = some (.ok v, u)) :
    ∃ n t, q.runRule (q.setting handler input) n i
        ((q.setting handler input).initial q.statistics hs) = some (.ok v, t) ∧
      t.pos = u.pos ∧ t.reports = u.reports := by
  let E := q.setting handler input
  have hstart : (recorded E).Alike (0, []) (E.initial q.statistics hs) ⟨0, none, [], hs⟩ :=
    ⟨rfl, rfl, rfl, Tracker.reads_ofInput _, rfl, rfl, summary_nil⟩
  obtain ⟨t, ht, hafter⟩ := (faithful_recorded (E := E) hmemo).pointRule_refines m i (0, []) _ _
    hstart _ _ hrun
  rw [Relation.after_symm] at hafter
  have halike : (recorded E).Alike (0, []) t u := hafter
  obtain ⟨n, hn⟩ := (hq.runRule_iff hg hf (E := E) rfl).mpr ht.exists
  exact ⟨n, t, hn, halike.pos, halike.kept.1⟩

/-! ## Errors at the end -/

/-- The reports at the end of a parse whose start rule gave a result at an offset: if that was a
match, the end of the input was expected there. -/
def finalReports (v : Slot) (stop : Nat) (reports : List (Nat × Expectation)) :
    List (Nat × Expectation) :=
  if v.isFailed then reports else (stop, .endOfInput) :: reports

/-- A parse that was not ended by an action matches if its start rule matched up to the end of the
input, and fails with an error about its furthest failure otherwise. -/
theorem State.finish_tellsFurthest {s : State σ} {reports : List (Nat × Expectation)}
    (hreads : s.tracker.Reads E.input) (hsummary : Summary s.furthest s.expected reports)
    (hinside : ∀ r ∈ reports, r.1 ≤ E.input.size) (hpos : s.pos ≤ E.input.size) (v : Slot) :
    ((∃ value, s.finish E v = .ok value) ↔ v.isFailed = false ∧ s.pos = E.input.size) ∧
    ∀ failure, s.finish E v = .error failure →
      ∃ e, failure = .mismatch e ∧ e.TellsFurthest E.input (finalReports v s.pos reports) := by
  unfold State.finish finalReports
  split
  · next hfailed =>
    obtain ⟨e, he, htells⟩ := failure_tellsFurthest hreads hsummary hinside
    refine ⟨by simp [hfailed], ?_⟩
    rintro _ ⟨⟩
    exact ⟨e, he, htells⟩
  · next hmatched =>
    have hmatched : v.isFailed = false := by simpa using hmatched
    split
    · next hend => exact ⟨by simp [hmatched, hend], nofun⟩
    · next hend =>
      rw [if_pos (by omega)]
      refine ⟨by simp [hend], ?_⟩
      rintro _ ⟨⟩
      have hsame : (s.report .endOfInput).tracker = s.tracker := by
        unfold State.report
        dsimp only
        split
        · rfl
        · split <;> rfl
      have hreported : Summary (s.report .endOfInput).furthest (s.report .endOfInput).expected
          ((s.pos, .endOfInput) :: reports) := by
        have hreport : Summary (s.report .endOfInput).history.furthest
            (s.report .endOfInput).history.expected ((s.pos, .endOfInput) :: reports) := by
          rw [State.history_report]
          exact Summary.report (H := s.history) hsummary s.pos .endOfInput
        exact hreport
      exact failure_tellsFurthest (hsame ▸ hreads) hreported
        (List.forall_mem_cons.mpr ⟨hpos, hinside⟩)

/-- Syntax errors tell the furthest failure: take the program of an accepted grammar with any
memoization, and a handler of actions; with memoization its answers must only depend on what it is
asked. If a parse is not ended by an action, the parse with the same program and no memoization comes
to the same end, and with the reports of that one: there is a value just if the start rule matched up
to the end of the input, and otherwise the error tells the furthest of these reports, as only it
does, whatever their order. -/
theorem compile_tellsFurthest {options : Options} {listeners : Nat} {compiled : Compiled}
    {s : Session} (h : compile g options listeners = (.ok compiled, s)) {P : Program}
    (hP : s.program = some P) (hfit : P.Addressable) {switch : Bool} {flags flags' : Nat → Bool}
    (hp : p.program = P.withMemo switch flags) (hsound : p.Sound)
    (hq : q.program = P.withMemo false flags') (hsound' : q.Sound)
    (hpure : switch = true → handler.Stateless) {n : Nat} {t : State σ}
    (hrun : p.runRule (p.setting handler input) n i
      ((p.setting handler input).initial p.statistics hs) = some (.ok v, t)) :
    ∃ m t₀, q.runRule (q.setting handler input) m i
        ((q.setting handler input).initial q.statistics hs) = some (.ok v, t₀) ∧ t₀.pos = t.pos ∧
      let outcome := (p.reportOf (p.setting handler input) (.ok v) t).outcome
      let reports := finalReports v t.pos t₀.reports
      ((∃ value, outcome = .ok value) ↔ v.isFailed = false ∧ t.pos = input.size) ∧
      ∀ failure, outcome = .error failure → ∃ e, failure = .mismatch e ∧
        e.TellsFurthest input reports ∧ ∀ reports' e', (∀ r, r ∈ reports' ↔ r ∈ reports) →
          e'.TellsFurthest input reports' → e' = e := by
  obtain ⟨_, _, _, haccepted⟩ := compile_eq_ok h
  obtain ⟨c, trace, hg, hprogram⟩ := haccepted.program
  rw [hP, Option.some.injEq] at hprogram
  have hf := haccepted.resolved
  have hcarries : P.Carries c := hprogram ▸ Generated.program_carries hg trace
  have hpRuns : p.Runs s.facts s.grammar c := ⟨hsound, hp ▸ hcarries.withMemo, hp ▸ hfit.withMemo⟩
  have hqRuns : q.Runs s.facts s.grammar c :=
    ⟨hsound', hq ▸ hcarries.withMemo, hq ▸ hfit.withMemo⟩
  have hmemo : p.program.memoize = false ∨ handler.Stateless := by
    rw [hp]
    cases switch with
    | false => exact .inl rfl
    | true => exact .inr (hpure rfl)
  obtain ⟨k, u, hu, hpos, hreads, hsummary⟩ := hpRuns.exists_point hg hf hmemo hrun
  have hinside := ((pointRule_within k i ⟨0, none, [], hs⟩
    ⟨⟨_, Input.rest?_zero input⟩, nofun⟩).ok v u hu).1
  have hsame : SameAnswers (p.setting handler input) (q.setting handler input) := by
    refine ⟨rfl, rfl, hpRuns.carries.actions.trans hqRuns.carries.actions.symm, ?_⟩
    change p.program.ruleName = q.program.ruleName
    rw [hp, hq, Program.ruleName_withMemo, Program.ruleName_withMemo]
  rw [hsame.pointRule_eq] at hu
  obtain ⟨m, t₀, ht₀, hpos₀, hreports⟩ := hqRuns.exists_state hg hf (by rw [hq]; rfl) hu
  refine ⟨m, t₀, ht₀, hpos₀.trans hpos.symm, ?_⟩
  obtain ⟨hok, herror⟩ := State.finish_tellsFurthest (E := p.setting handler input) hreads hsummary
    (fun r hr => Input.le_size (hinside.2 r hr).choose_spec)
    (hpos ▸ Input.le_size hinside.1.choose_spec) v
  refine ⟨hok, fun failure hfailure => ?_⟩
  obtain ⟨e, he, htells⟩ := herror failure hfailure
  rw [← hreports] at htells
  exact ⟨e, he, htells, fun reports' e' hsame' h' => htells.unique h' hsame'⟩

/-- A grammar both of whose alternatives begin with a rule `r` that has an action; the second one
goes on if the value of `r` is right. -/
def checkedTries : GrammarSource where
  rules := [
    ⟨"start", .of (.choice [
      .of (.sequence [.of (.ruleRef "r"), .of (.literal "x" false)]),
      .of (.sequence [.label "v" (.of (.ruleRef "r")), .of (.semanticAnd "p"),
        .of (.literal "y" false)])]), [], none⟩,
    ⟨"r", .of (.action (.of (.literal "a" false)) "f"), [], none⟩]

/-- The program of that grammar with memoization. -/
def checkedTriesProgram : Program where
  rules := #[
    ⟨"start", true, #[1, 25, 1, 11, 18, 3, 16, 0, 2, 2, 20, 0, 21, 1, 11, 3, 4, 7, 2, 5, 4, 2, 3, 28,
      2, 3, 28, 10, 50, 0, 2, 1, 25, 1, 11, 40, 3, 23, 32, 24, 0, 0, 1, 0, 33, 9, 2, 2, 2, 26, 2, 28,
      11, 18, 4, 16, 2, 2, 2, 20, 2, 21, 3, 11, 3, 4, 7, 3, 5, 4, 3, 3, 28, 4, 2, 3, 28, 2, 3, 28]⟩,
    ⟨"r", true, #[1, 16, 4, 2, 2, 20, 4, 21, 5, 11, 6, 0, 22, 1, 24, 1, 1, 0, 5]⟩]
  constants := #[.string "x", .expected (.literal "x"), .string "y", .expected (.literal "y"),
    .string "a", .expected (.literal "a")]
  actions := #[⟨["v"], "p"⟩, ⟨[], "f"⟩]
  starters := [0]
  defaultStart := 0
  memoize := true
  trace := false
  statistics := false

/-- The parser for that grammar, with memoization or without. -/
def checkedTriesParser (switch : Bool) : Parser :=
  .interpreted (checkedTriesProgram.withMemo switch fun _ => true)

theorem checkedTries_compiled : ∃ compiled s,
    compile (.ofSource checkedTries) { cache := true } 0 = (.ok compiled, s) ∧
      s.program = some checkedTriesProgram := by
  have hok : (compile (.ofSource checkedTries) { cache := true } 0).1.isOk = true := by
    decide +kernel
  have hprogram : (compile (.ofSource checkedTries) { cache := true } 0).2.program =
      some checkedTriesProgram := by
    decide +kernel
  obtain ⟨compiled, hcompiled⟩ := exists_compiled hok
  exact ⟨compiled, _, hcompiled, hprogram⟩

/-- A handler with the same answer to everything. -/
def Handler.constantly (value : Value) : Handler σ := fun _ _ _ _ s => (.ok value, s)

/-- With such a handler the second try recalls `r`, and both alternatives are told. -/
theorem checkedTries_tellsFurthest :
    let p := checkedTriesParser true
    let q := checkedTriesParser false
    let handler : Handler Unit := .constantly (.bool true)
    let input : Input := .ofString "az"
    ∃ v t e m t₀, p.runRule (p.setting handler input) 60 0
        ((p.setting handler input).initial p.statistics ()) = some (.ok v, t) ∧
      (p.reportOf (p.setting handler input) (.ok v) t).outcome = .error (.mismatch e) ∧
      e.expected = [.literal "x", .literal "y"] ∧
      q.runRule (q.setting handler input) m 0
        ((q.setting handler input).initial q.statistics ()) = some (.ok v, t₀) ∧
      e.TellsFurthest input (finalReports v t.pos t₀.reports) := by
  intro p q handler input
  have hends : ((p.runRule (p.setting handler input) 60 0
      ((p.setting handler input).initial p.statistics ())).map fun r =>
        match r.1, (p.reportOf (p.setting handler input) r.1 r.2).outcome with
        | .ok _, .error (.mismatch e) => e.expected
        | _, _ => []) = some [.literal "x", .literal "y"] := by
    cbv
  have hfit : checkedTriesProgram.Addressable := by constructor <;> decide
  obtain ⟨compiled, _, hcompiled, hprogram⟩ := checkedTries_compiled
  obtain ⟨⟨o, t⟩, hrun, htold⟩ := Option.map_eq_some_iff.mp hends
  split at htold
  · next v e hv houtcome =>
    obtain rfl : o = .ok v := hv
    obtain ⟨m, t₀, ht₀, -, -, htells⟩ := compile_tellsFurthest hcompiled hprogram hfit (p := p)
      (q := q) rfl (Parser.sound_interpreted _) rfl (Parser.sound_interpreted _)
      (fun _ _ _ _ _ _ _ => rfl) hrun
    obtain ⟨e', he', hfurthest, -⟩ := htells _ houtcome
    cases he'
    exact ⟨v, t, e, m, t₀, hrun, houtcome, htold, ht₀, hfurthest⟩
  · cases htold

/-- A handler that counts how often `f` runs; `p` holds after the second time. -/
def countingHandler : Handler Nat := fun _ action _ args n =>
  if action.code = "f" then (.ok (.int (Int64.ofNat (n + 1))), n + 1)
  else (.ok (.bool ((args.headD .undefined).same (.int 2))), n)

/-- With a handler that counts, the parse with memoization does not tell what was expected in the
one without: the recalled value of `r` is that of the first try. -/
theorem checkedTries_not_tellsFurthest :
    let p := checkedTriesParser true
    let q := checkedTriesParser false
    let input : Input := .ofString "az"
    (∃ compiled s, compile (.ofSource checkedTries) { cache := true } 0 = (.ok compiled, s) ∧
      s.program = some checkedTriesProgram) ∧
    ∃ v t e v₀ t₀, p.runRule (p.setting countingHandler input) 60 0
        ((p.setting countingHandler input).initial p.statistics 0) = some (.ok v, t) ∧
      (p.reportOf (p.setting countingHandler input) (.ok v) t).outcome = .error (.mismatch e) ∧
      q.runRule (q.setting countingHandler input) 60 0
        ((q.setting countingHandler input).initial q.statistics 0) = some (.ok v₀, t₀) ∧
      ¬e.TellsFurthest input (finalReports v₀ t₀.pos t₀.reports) := by
  intro p q input
  have hrecalled : ((p.runRule (p.setting countingHandler input) 60 0
      ((p.setting countingHandler input).initial p.statistics 0)).map fun r =>
        match r.1, (p.reportOf (p.setting countingHandler input) r.1 r.2).outcome with
        | .ok _, .error (.mismatch e) => (e.location.start.offset, e.expected)
        | _, _ => (0, [])) = some (1, [.literal "x"]) := by
    cbv
  have hrun : ((q.runRule (q.setting countingHandler input) 60 0
      ((q.setting countingHandler input).initial q.statistics 0)).map fun r =>
        (r.1.toOption.map (·.isFailed), r.2.reports)) =
        some (some true, [(1, .literal "y"), (1, .literal "x")]) := by
    cbv
  refine ⟨checkedTries_compiled, ?_⟩
  obtain ⟨⟨o, t⟩, ht, htold⟩ := Option.map_eq_some_iff.mp hrecalled
  obtain ⟨⟨o₀, t₀⟩, ht₀, hmade⟩ := Option.map_eq_some_iff.mp hrun
  obtain ⟨hfailed, hreports : t₀.reports = _⟩ := Prod.mk.inj hmade
  split at htold
  · next v e hv houtcome =>
    obtain rfl : o = .ok v := hv
    obtain ⟨hoffset, hexpected⟩ := Prod.mk.inj htold
    cases o₀ with
    | error e₀ => cases hfailed
    | ok v₀ =>
      refine ⟨v, t, e, v₀, t₀, ht, houtcome, ht₀, fun htells => ?_⟩
      have hfailed : v₀.isFailed = true := Option.some.inj hfailed
      have hmem := (htells.expected (.literal "y")).mpr (by
        rw [finalReports, if_pos hfailed, hreports, hoffset]
        exact List.mem_cons_self)
      rw [hexpected] at hmem
      exact absurd hmem (by decide)
  · cases htold

end PegMachine
