import PegMachine.Proofs.Accepted
import PegMachine.Proofs.Compiled
import PegMachine.Proofs.Executors
import PegMachine.Proofs.Recall

/-!
# Memoization is transparent

Whether results are memoized, and which ones, makes no difference to what a parse gives, provided
that the answers of the handler only depend on what it is asked. Each parse is compared with the
same evaluation on points, which knows no memo table: whatever a parse recalls, its furthest failure
is that of the reports of the evaluation, and there is only one.
-/

namespace PegMachine

open Filter

/-! ## Programs with other switches -/

namespace Program

/-- The program with memoization switched on or off, as a whole and for each rule. -/
def withMemo (p : Program) (switch : Bool) (flags : Nat → Bool) : Program :=
  { p with memoize := switch, rules := p.rules.mapIdx fun i r => { r with memoize := flags i } }

variable {p : Program} {switch : Bool} {flags : Nat → Bool}

@[simp] theorem ruleName_withMemo : (p.withMemo switch flags).ruleName = p.ruleName := by
  funext i
  simp only [ruleName, withMemo, Array.getElem?_mapIdx]
  cases p.rules[i]? <;> rfl

@[simp] theorem startIndex_withMemo :
    (p.withMemo switch flags).startIndex = p.startIndex := by
  funext name
  cases name with
  | none => rfl
  | some name =>
    simp only [startIndex, ruleName_withMemo]
    rfl

theorem Carries.withMemo {c : Generated} (h : p.Carries c) :
    (p.withMemo switch flags).Carries c := by
  refine ⟨?_, h.constants, h.actions⟩
  rw [← h.code]
  refine List.ext_getElem (by simp [Program.withMemo]) fun i hi hi' => ?_
  simp [Program.withMemo]

theorem Addressable.withMemo (h : p.Addressable) : (p.withMemo switch flags).Addressable := by
  refine ⟨fun r hr => ?_, h.constants, h.actions, ?_⟩
  · obtain ⟨i, hi, rfl⟩ := Array.mem_mapIdx.mp hr
    have hi' : i < p.rules.size := by simpa [Program.withMemo] using hi
    exact h.code p.rules[i] (Array.getElem_mem hi')
  · simpa [Program.withMemo] using h.rules

end Program

/-! ## Parsers of a program -/

/-- If a parser runs routines, they are those of its program. -/
def Parser.Sound (p : Parser) : Prop :=
  ∀ rs, p.executor = .routines rs → p.program.routines = .ok rs

theorem Parser.sound_interpreted (p : Program) : (Parser.interpreted p).Sound := nofun

theorem Parser.sound_unrolled {p : Program} {q : Parser} (h : Parser.unrolled p = .ok q) :
    q.Sound := by
  rw [Parser.unrolled] at h
  obtain ⟨rs, hrs, h⟩ := bind_eq_ok.mp h
  cases h
  rintro _ ⟨⟩
  exact hrs

variable {σ : Type}

/-- Invocations end as they do in machine code, whatever runs them. -/
theorem Parser.Sound.runRule_iff {p : Parser} (hp : p.Sound) {E : Setting σ}
    (hE : E.program = p.program) {i : Nat} {s : State σ} {r : Outcome Slot × State σ} :
    (∃ n, p.runRule E n i s = some r) ↔ ∃ n, Interpreter.runRule E n i s = some r := by
  unfold Parser.runRule
  cases hexecutor : p.executor with
  | interpreter => exact Iff.rfl
  | routines rs =>
    have hrs : E.program.routines = .ok rs := by rw [hE, hp rs hexecutor]
    exact (Routine.runRule_iff hrs).symm

namespace Peg

variable {E E' : Setting σ} {g : Grammar}

/-! ## Settings that differ in their switches -/

/-- Two settings in which evaluations on points are the same. -/
structure SameAnswers (E E' : Setting σ) : Prop where
  input : E.input = E'.input
  handler : E.handler = E'.handler
  actions : E.program.actions = E'.program.actions
  names : E.program.ruleName = E'.program.ruleName

theorem SameAnswers.points_eq (h : SameAnswers E E') : points E = points E' := by
  have hcall : Point.call E = Point.call E' := by
    funext a start args t
    simp only [Point.call, Point.context, actionIndex, h.input, h.handler, h.actions, h.names]
  simp only [points, hcall]

theorem SameAnswers.pointRule_eq (h : SameAnswers E E') (n index : Nat) :
    pointRule E g n index = pointRule E' g n index := by
  induction n generalizing index with
  | zero => rfl
  | succ n ih =>
    funext t
    simp only [pointRule, h.points_eq, h.input, funext ih]

/-! ## What is shown of failures -/

/-- What is shown of a furthest failure only depends on the reports that it is the furthest of. -/
theorem failure_congr (hinput : E.input = E'.input) {s s' : State σ}
    {L : List (Nat × Expectation)} (hs : Summary s.furthest s.expected L)
    (hs' : Summary s'.furthest s'.expected L) (hreads : s.tracker.Reads E.input)
    (hreads' : s'.tracker.Reads E'.input) : s.failure E = s'.failure E' := by
  obtain ⟨hfurthest, hexpected⟩ := hs.unique hs'
  simp only [State.failure, SyntaxError.ofExpected, hfurthest, Expectation.tidy_congr hexpected,
    (hreads.location _ _).1, (hreads'.location _ _).1, hinput]

variable {hE : E.handler.Stateless} {hE' : E'.handler.Stateless} {s s' : State σ} {t : Point σ}
  {L : List (Nat × Expectation)}

theorem failure_eq (hinput : E.input = E'.input) (hs : (furthestOnly g hE).Alike (0, L) s t)
    (hs' : (furthestOnly g hE').Alike (0, L) s' t) : s.failure E = s'.failure E' :=
  failure_congr hinput hs.kept.1 hs'.kept.1 hs.reads hs'.reads

/-- Parses that are at the same point in the end have the same outcome. -/
theorem finish_eq (hinput : E.input = E'.input) (hs : (furthestOnly g hE).Alike (0, L) s t)
    (hs' : (furthestOnly g hE').Alike (0, L) s' t) (result : Slot) :
    s.finish E result = s'.finish E' result := by
  have hpos : s.pos = s'.pos := hs.pos.trans hs'.pos.symm
  have hended := failure_eq hinput (Account.Alike.report (w := (0, L)) hs .endOfInput)
    (Account.Alike.report (w := (0, L)) hs' .endOfInput)
  simp only [State.finish, hpos, hinput, failure_eq hinput hs hs', hended]

/-- A new parse is at the point where the input starts. -/
theorem alike_initial (E : Setting σ) (hE : E.handler.Stateless) (g : Grammar)
    (statistics : Statistics) (hs : σ) :
    (furthestOnly g hE).Alike (0, []) (E.initial statistics hs) ⟨0, none, [], hs⟩ := by
  refine ⟨rfl, rfl, rfl, Tracker.reads_ofInput _, summary_nil, fun T hT e he => ?_⟩
  have hmemo : (E.initial statistics hs).memo = some T := hT
  rw [Setting.entries_initial hmemo] at he
  exact absurd he (Array.not_mem_empty e)

end Peg

open Peg

/-! ## Parses -/

variable {g : Grammar}

/-- What is asked of two parsers that are compared: they run the code that was generated for one
grammar. -/
structure Parser.Runs (p : Parser) (f : Facts) (g : Grammar) (c : Generated) : Prop where
  sound : p.Sound
  carries : p.program.Carries c
  fits : p.program.Addressable

variable {f : Facts} {c : Generated} {p q : Parser} {handler : Handler σ} {hs : σ} {input : Input}

/-- A parse comes to what the evaluation on points comes to. -/
theorem Parser.Runs.runRule_iff (hp : p.Runs f g c) (hg : f.generate g = .ok c)
    (hf : f.Resolves g) {E : Setting σ} (hE : E.program = p.program) {i : Nat} {s : State σ}
    {r : Outcome Slot × State σ} :
    (∃ n, p.runRule E n i s = some r) ↔ ∃ n, machineRule E g n i s = some r := by
  have hcarries : E.program.Carries c := hE ▸ hp.carries
  have hfits : E.program.Addressable := hE ▸ hp.fits
  rw [hp.sound.runRule_iff hE, (hcarries.laidOut hg hf hfits).runRule_iff]
  simp only [hcarries.runRule_eq hg hf hfits]

/-- Whenever one parser ends, so does another one that differs in its switches only, and both give
the same outcome. -/
theorem Parser.Runs.outcome_of (hp : p.Runs f g c) (hq : q.Runs f g c)
    (hg : f.generate g = .ok c) (hf : f.Resolves g)
    (hnames : p.program.ruleName = q.program.ruleName) (hhandler : handler.Stateless) (i : Nat)
    {n : Nat} {report : ParseReport σ} (hrun : p.runFrom n handler hs input i = some report) :
    ∃ m report', q.runFrom m handler hs input i = some report' ∧
      report'.outcome = report.outcome := by
  obtain ⟨⟨o, s⟩, hs₁, rfl⟩ := Option.map_eq_some_iff.mp hrun
  let E := p.setting handler input
  let E' := q.setting handler input
  have hE : E.handler.Stateless := hhandler
  have hE' : E'.handler.Stateless := hhandler
  have hsame : SameAnswers E E' :=
    ⟨rfl, rfl, hp.carries.actions.trans hq.carries.actions.symm, hnames⟩
  obtain ⟨k, hk⟩ := (hp.runRule_iff hg hf (E := E) rfl).mp ⟨n, hs₁⟩
  -- From the first parse to the points, and from there to the second one.
  obtain ⟨t, ht, hafter⟩ := (faithful_furthestOnly hE).machineRule_refines k i (0, []) _ _
    (alike_initial E hE g p.statistics hs) _ _ hk
  obtain ⟨m, hm⟩ := ht.exists
  dsimp only at hm
  rw [hsame.pointRule_eq] at hm
  obtain ⟨s', hs', hafter'⟩ := (faithful_furthestOnly hE').pointRule_refines m i (0, []) _ _
    (alike_initial E' hE' g q.statistics hs) _ _ hm
  rw [Relation.after_symm] at hafter'
  obtain ⟨l, hl⟩ := hs'.exists
  obtain ⟨n', hn'⟩ := (hq.runRule_iff hg hf (E := E') rfl).mpr ⟨l, hl⟩
  refine ⟨n', _, Option.map_eq_some_iff.mpr ⟨_, hn', rfl⟩, ?_⟩
  cases o with
  | error e => rfl
  | ok result =>
    have hend : (furthestOnly g hE).Alike (0, []) s t := hafter
    have hend' : (furthestOnly g hE').Alike (0, []) s' t := hafter'
    exact (finish_eq hsame.input hend hend' result).symm

/-- Memoization is transparent: take the program that is generated for an accepted grammar, and
switch memoization on or off in it as a whole and rule by rule in two ways. Then a parse with a
handler whose answers only depend on what it is asked ends in both ways or in neither, and gives the
same value or the same failure. Machine code may be interpreted or run as routines. -/
theorem compile_withMemo {options : Options} {listeners : Nat} {compiled : Compiled} {s : Session}
    (h : compile g options listeners = (.ok compiled, s)) {P : Program} (hP : s.program = some P)
    (hfit : P.Addressable) {switch switch' : Bool} {flags flags' : Nat → Bool} {p q : Parser}
    (hp : p.program = P.withMemo switch flags) (hsound : p.Sound)
    (hq : q.program = P.withMemo switch' flags') (hsound' : q.Sound) {handler : Handler σ}
    (hhandler : handler.Stateless) (hs : σ) (input : Input) (startRule : Option String)
    (outcome : Outcome Value) :
    (∃ n report, p.run n handler hs input startRule = some report ∧ report.outcome = outcome) ↔
      ∃ n report, q.run n handler hs input startRule = some report ∧ report.outcome = outcome := by
  obtain ⟨_, _, _, haccepted⟩ := compile_eq_ok h
  obtain ⟨c, trace, hg, hprogram⟩ := haccepted.program
  have hf := haccepted.resolved
  have hcarries : P.Carries c := by
    rw [hP] at hprogram
    cases hprogram
    exact Generated.program_carries hg trace
  have hpRuns : p.Runs s.facts s.grammar c := ⟨hsound, hp ▸ hcarries.withMemo, hp ▸ hfit.withMemo⟩
  have hqRuns : q.Runs s.facts s.grammar c :=
    ⟨hsound', hq ▸ hcarries.withMemo, hq ▸ hfit.withMemo⟩
  have hnames : p.program.ruleName = q.program.ruleName := by
    rw [hp, hq, Program.ruleName_withMemo, Program.ruleName_withMemo]
  have hstart : p.program.startIndex = q.program.startIndex := by
    rw [hp, hq, Program.startIndex_withMemo, Program.startIndex_withMemo]
  unfold Parser.run
  rw [hstart]
  cases q.program.startIndex startRule with
  | error e => simp
  | ok i =>
    dsimp only
    constructor
    · rintro ⟨n, report, hrun, rfl⟩
      exact hpRuns.outcome_of hqRuns hg hf hnames hhandler i hrun
    · rintro ⟨n, report, hrun, rfl⟩
      exact hqRuns.outcome_of hpRuns hg hf hnames.symm hhandler i hrun

/-- A grammar whose rule `x` is first tried in a predicate, where failures are not reported, and
then again at the same place, where they are. -/
def notThenAgain : Grammar where
  rules := [{ name := "start", expression := 7 }, { name := "x", expression := 8 }]
  nodes := #[⟨.literal "b" false, none⟩, ⟨.ruleRef "x", none⟩, ⟨.simpleNot 1, none⟩,
    ⟨.sequence [2, 0], none⟩, ⟨.ruleRef "x", none⟩, ⟨.literal "c" false, none⟩,
    ⟨.sequence [4, 5], none⟩, ⟨.choice [3, 6], none⟩, ⟨.literal "a" false, none⟩]

/-- The program of that grammar. -/
def notThenAgainProgram : Program where
  rules := #[
    ⟨"start", false, #[1, 1, 32, 25, 1, 33, 10, 3, 3, 2, 2, 26, 2, 3, 28, 11, 18, 3, 16, 0, 2, 2,
      20, 0, 21, 1, 11, 3, 4, 7, 2, 5, 4, 2, 3, 28, 2, 3, 28, 10, 28, 0, 2, 1, 25, 1, 11, 18, 3, 16,
      2, 2, 2, 20, 2, 21, 3, 11, 3, 4, 7, 2, 5, 4, 2, 3, 28, 2, 3, 28]⟩,
    ⟨"x", false, #[16, 4, 2, 2, 20, 4, 21, 5]⟩]
  constants := #[.string "b", .expected (.literal "b"), .string "c", .expected (.literal "c"),
    .string "a", .expected (.literal "a")]
  actions := #[]
  starters := [0]
  defaultStart := 0
  memoize := false
  trace := false
  statistics := false

/-- What the predicate keeps does not change the failure of that grammar. -/
theorem notThenAgain_withMemo :
    ∃ outcome,
      (∃ n report, (Parser.interpreted (notThenAgainProgram.withMemo true fun _ => true)).run n
          .none () (.ofString "d") none = some report ∧ report.outcome = outcome) ∧
        ∃ n report, (Parser.interpreted (notThenAgainProgram.withMemo false fun _ => false)).run n
          .none () (.ofString "d") none = some report ∧ report.outcome = outcome := by
  have hok : (compile notThenAgain {} 0).1.isOk = true := by decide +kernel
  have hprogram : (compile notThenAgain {} 0).2.program = some notThenAgainProgram := by
    decide +kernel
  have hends : ((Parser.interpreted (notThenAgainProgram.withMemo false fun _ => false)).run 60
      .none () (.ofString "d") none).isSome = true := by
    decide +kernel
  have hfit : notThenAgainProgram.Addressable := by constructor <;> decide
  have hstateless : (Handler.none : Handler Unit).Stateless := fun _ _ _ _ _ _ => rfl
  obtain ⟨compiled, hcompiled⟩ := exists_compiled hok
  obtain ⟨report, hreport⟩ := Option.isSome_iff_exists.mp hends
  refine ⟨report.outcome, ?_, 60, report, hreport, rfl⟩
  exact (compile_withMemo hcompiled hprogram hfit rfl (Parser.sound_interpreted _) rfl
    (Parser.sound_interpreted _) hstateless () (.ofString "d") none _).mpr
      ⟨60, report, hreport, rfl⟩

end PegMachine
