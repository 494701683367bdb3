import PegMachine.Compile
import PegMachine.Proofs.Linking
import PegMachine.Proofs.Records
import PegMachine.Proofs.Sessions

/-!
# Accepted grammars

What is known about a grammar that was compiled without errors: what the checks looked at and found
in order, and what code was generated for.
-/

namespace PegMachine

open Session

/-- The sessions in which a compilation of a grammar that goes well drops unused rules, checks for
endless runs, takes out proxies, and ends. -/
structure Accepted (g : Grammar) (p c x s : Session) : Prop where
  grammar : p.grammar = g
  linked : p.facts.Links g
  noMissing : p.missingReferences = []
  checkedGrammar : c.grammar = p.dropUnusedRules.grammar
  checkedFacts : c.facts = p.dropUnusedRules.facts.analyze p.dropUnusedRules.grammar
  noLeftRecursion : c.facts.leftRecursion c.grammar = []
  noEndlessLoops : c.facts.endlessLoops c.grammar = []
  transformedGrammar : x.grammar = c.grammar
  transformedFacts : x.facts = c.facts
  finalGrammar : s.grammar = x.elideProxies.grammar
  finalTargets : s.facts.targets = x.elideProxies.facts.targets
  finalConsumption : s.facts.consumption =
    Consumption.nodeTable (Consumption.solve s.grammar s.facts)
  finalRecords : ∀ index < s.grammar.rules.length,
    s.facts.record? index = some ((Consumption.solve s.grammar s.facts).record index)
  program : ∃ code trace, s.facts.generate s.grammar = .ok code ∧
    s.program = some (code.program s.grammar s.facts trace)

namespace Stage

variable {name : String} {passes : List Pass} {s t : Session}

theorem runPasses_nil (h : runPasses name [] s = (.ok (), t)) : t = s := by
  cases h
  rfl

/-- A pass that always goes well is a function of the session. -/
theorem runPasses_ofFunction {pass : String} {f : Session → Session}
    (h : runPasses name (.ofFunction pass f :: passes) s = (.ok (), t)) :
    ∃ u, s.Keeps u ∧ runPasses name passes (f u) = (.ok (), t) := by
  obtain ⟨u, v, hkeeps, hpass, hrest⟩ := runPasses_cons h
  cases hpass
  exact ⟨u, hkeeps, hrest⟩

/-- The sessions before and after a pass that only says something differ in nothing else. -/
theorem runPasses_keeps {pass : String} {f : Session → Session} (hf : ∀ s, Keeps s (f s))
    (h : runPasses name (.ofFunction pass f :: passes) s = (.ok (), t)) :
    ∃ u, s.Keeps u ∧ runPasses name passes u = (.ok (), t) := by
  obtain ⟨u, hkeeps, hrest⟩ := runPasses_ofFunction h
  exact ⟨f u, hkeeps.trans (hf u), hrest⟩

end Stage

namespace Accepted

variable {s t : Session}

/-- The facts of a session are linked to its grammar. -/
def Linked (s : Session) : Prop := s.facts.Links s.grammar

theorem Linked.keeps (h : Linked s) (hkeeps : s.Keeps t) : Linked t := by
  rw [Linked, hkeeps.grammar, hkeeps.facts]
  exact h

theorem linked_relink (s : Session) : Linked s.relink := Facts.links_link _ _ _

theorem linked_removeRules (s : Session) (indices : List Nat) :
    Linked (s.removeRules indices) := linked_relink _

theorem linked_elideProxies (s : Session) : Linked s.elideProxies := by
  unfold elideProxies
  dsimp only
  split
  · exact linked_relink _
  · exact linked_removeRules _ _

/-- What is prepared is linked. -/
theorem of_prepare (h : Stage.run ⟨"prepare", [.link, .statistics, .descriptions]⟩ s =
    (.ok (), t)) : t.grammar = s.grammar ∧ Linked t := by
  obtain ⟨v, hpasses, hkeeps, -⟩ := Stage.run_eq_ok h
  obtain ⟨u₁, u₂, hkeeps₁, hlink, hpasses⟩ := Stage.runPasses_cons hpasses
  have hlinked : u₂.grammar = u₁.grammar ∧ Linked u₂ := by
    have hlink : u₁.linkGrammar = (.ok (), u₂) := hlink
    unfold linkGrammar at hlink
    split at hlink
    · cases hlink
    · cases hlink
      have hreported := u₁.keeps_reportStarters (u₁.options.startRules.resolve u₁.grammar)
      exact ⟨hreported.grammar, Facts.links_link _ _ _⟩
  obtain ⟨u₃, hkeeps₃, hpasses⟩ := Stage.runPasses_ofFunction hpasses
  obtain ⟨u₄, hkeeps₄, hpasses⟩ := Stage.runPasses_ofFunction hpasses
  obtain rfl := Stage.runPasses_nil hpasses
  have hstatistics : Linked u₃.decideStatistics :=
    (hlinked.2.keeps hkeeps₃).congr rfl rfl rfl fun _ => id
  have hdescribed : Linked u₄.describeNodes :=
    (hstatistics.keeps hkeeps₄).congr rfl rfl rfl fun _ => id
  refine ⟨?_, hdescribed.keeps hkeeps⟩
  rw [hkeeps.grammar]
  change u₄.grammar = _
  rw [hkeeps₄.grammar]
  change u₃.grammar = _
  rw [hkeeps₃.grammar, hlinked.1, hkeeps₁.grammar]
  rfl

/-- What unused rules were dropped from is linked. -/
theorem Linked.dropUnusedRules (h : Linked s) : Linked s.dropUnusedRules := by
  obtain ⟨t, hkeeps, ⟨-, hdropped⟩ | hdropped⟩ := dropUnusedRules_cases s
  · rw [hdropped]
    exact h.keeps hkeeps
  · rw [hdropped]
    exact linked_removeRules _ _

/-- What was analyzed is linked as before. -/
theorem Linked.analyze {f : Facts} {g : Grammar} (h : f.Links g) : (f.analyze g).Links g := by
  refine h.congr Array.size_mapIdx rfl rfl fun index hstarts => ?_
  rw [Facts.Starts] at hstarts ⊢
  obtain ⟨r, hr, hstarter⟩ := Option.any_eq_true _ _ |>.mp hstarts
  simp only [Facts.analyze, Array.getElem?_mapIdx, hr, Option.map_some, Option.any_some]
  exact hstarter

/-- What is checked has no endless runs. -/
theorem of_check (h : Stage.run ⟨"check", [.duplicateRules, .missingRules, .unusedRules,
      .consumption, .leftRecursion, .infiniteLoops, .duplicateLabels]⟩ s = (.ok (), t)) :
    ∃ p c : Session, p.grammar = s.grammar ∧ p.facts = s.facts ∧ p.missingReferences = [] ∧
      c.grammar = p.dropUnusedRules.grammar ∧
      c.facts = p.dropUnusedRules.facts.analyze p.dropUnusedRules.grammar ∧
      c.facts.leftRecursion c.grammar = [] ∧ c.facts.endlessLoops c.grammar = [] ∧
      c.Keeps t := by
  obtain ⟨v, hpasses, hkeeps, herrors⟩ := Stage.run_eq_ok h
  obtain ⟨u₁, hkeeps₁, hpasses⟩ := Stage.runPasses_keeps keeps_checkDuplicateRules hpasses
  obtain ⟨u₂, hkeeps₂, hpasses⟩ := Stage.runPasses_ofFunction hpasses
  obtain ⟨p, hkeepsp, hpasses⟩ := Stage.runPasses_ofFunction hpasses
  obtain ⟨d, hkeepsd, hpasses⟩ := Stage.runPasses_ofFunction hpasses
  obtain ⟨c, hkeepsc, hpasses⟩ := Stage.runPasses_ofFunction hpasses
  obtain ⟨u₃, hkeeps₃, hpasses⟩ := Stage.runPasses_ofFunction hpasses
  obtain ⟨u₄, hkeeps₄, hpasses⟩ := Stage.runPasses_keeps keeps_checkLabels hpasses
  obtain rfl := Stage.runPasses_nil hpasses
  have hmissing := u₂.keeps_checkMissingRules.trans hkeepsp
  have hp := (hkeeps₁.trans hkeeps₂).trans hmissing
  -- No pass takes an error back, so none of the checks reported one.
  have hend := hkeeps₃.trans (u₃.keeps_checkEndlessLoops.trans hkeeps₄)
  have hnoMissing : p.missingReferences = [] := by
    have hdropped := ((hkeepsc.trans c.keeps_checkLeftRecursion).trans hend).errors_eq_zero herrors
    have hzero : p.diagnostics.errors = 0 := Nat.le_zero.mp
      (Nat.le_trans p.errors_le_dropUnusedRules (Nat.le_trans hkeepsd.errors hdropped.le))
    have hnone := missingReferences_eq_nil (hkeepsp.errors_eq_zero hzero)
    rw [← hnone, missingReferences, missingReferences, missingReference?_congr hmissing,
      hmissing.grammar]
  have hleft := leftRecursion_eq_nil (hend.errors_eq_zero herrors)
  have hloops := endlessLoops_eq_nil (hkeeps₄.errors_eq_zero herrors)
  have hc : c.Keeps u₃ := c.keeps_checkLeftRecursion.trans hkeeps₃
  rw [hc.facts, hc.grammar] at hloops
  refine ⟨p, c, hp.grammar, hp.facts, hnoMissing,
    hkeepsc.grammar.trans hkeepsd.grammar, hkeepsc.facts.trans ?_, hleft, hloops,
    ((hc.trans u₃.keeps_checkEndlessLoops).trans hkeeps₄).trans hkeeps⟩
  rw [analyzeConsumption, hkeepsd.facts, hkeepsd.grammar]

/-- Deciding about memoization changes nothing but what is memoized. -/
theorem decideMemoization_eq (s : Session) : ∃ (decided : Nat → RuleFacts → Bool) (on : Bool),
    s.decideMemoization.grammar = s.grammar ∧ s.decideMemoization.facts =
      { s.facts with
        rules := s.facts.rules.mapIdx fun i r => { r with memoize := decided i r }
        memoize := on } := by
  have hconflicts := Keeps.foldl (fun t (c : String × Option Location) => keeps_warning t c.1 c.2)
    (MemoPolicy.ofGrammar s.grammar).conflicts s
  unfold decideMemoization
  dsimp only
  generalize (MemoPolicy.ofGrammar s.grammar).conflicts.foldl _ s = t at hconflicts ⊢
  have hdecided (rules : Array RuleFacts) (decide : Nat → RuleFacts → RuleFacts)
      (hrules : t.facts.rules.mapIdx decide = rules)
      (h : ∀ i r, decide i r = { r with memoize := (decide i r).memoize }) :
      ∃ decided : Nat → RuleFacts → Bool,
        rules = s.facts.rules.mapIdx fun i r => { r with memoize := decided i r } := by
    refine ⟨fun i r => (decide i r).memoize, ?_⟩
    rw [← hrules, hconflicts.facts]
    exact congrArg (Array.mapIdx · s.facts.rules) (funext fun i => funext (h i))
  generalize hmapped : t.facts.rules.mapIdx _ = rules
  replace hdecided := hdecided rules _ hmapped fun i r => by
    cases (MemoPolicy.ofGrammar s.grammar).rules[i]? <;> rfl
  have hkeeps : t.Keeps (if rules.any (·.memoize) && !t.options.cache then
      t.info (overrideMessage "ON") none
    else if !rules.any (·.memoize) && t.options.cache then t.info (overrideMessage "OFF") none
    else t) := .ite (keeps_info t _ _) (.ite (keeps_info t _ _) (.refl t))
  have hboth := hconflicts.trans hkeeps
  obtain ⟨decided, hrules⟩ := hdecided
  refine ⟨decided, rules.any (·.memoize), hboth.grammar, ?_⟩
  rw [← hrules, ← hboth.facts]
  rfl

/-- What is transformed was analyzed afterwards. -/
theorem of_transform (h : Stage.run ⟨"transform", [.proxyRules, .autoLabel, .consumption,
      .memoization]⟩ s = (.ok (), t)) :
    ∃ x : Session, x.grammar = s.grammar ∧ x.facts = s.facts ∧
      t.grammar = x.elideProxies.grammar ∧
      t.facts.targets = x.elideProxies.facts.targets ∧
      t.facts.consumption = Consumption.nodeTable (Consumption.solve t.grammar t.facts) ∧
      ∀ index < t.grammar.rules.length,
        t.facts.record? index = some ((Consumption.solve t.grammar t.facts).record index) := by
  obtain ⟨v, hpasses, hkeeps, -⟩ := Stage.run_eq_ok h
  obtain ⟨x, hkeepsx, hpasses⟩ := Stage.runPasses_ofFunction hpasses
  obtain ⟨y, hkeepsy, hpasses⟩ := Stage.runPasses_ofFunction hpasses
  obtain ⟨z, hkeepsz, hpasses⟩ := Stage.runPasses_ofFunction hpasses
  obtain ⟨m, hkeepsm, hpasses⟩ := Stage.runPasses_ofFunction hpasses
  obtain rfl := Stage.runPasses_nil hpasses
  obtain ⟨decided, on, hmgrammar, hmfacts⟩ := decideMemoization_eq m
  have hgrammarz : z.grammar = x.elideProxies.grammar := hkeepsz.grammar.trans hkeepsy.grammar
  have htargetsz : z.facts.targets = x.elideProxies.facts.targets := by
    rw [hkeepsz.facts, ← hkeepsy.facts]
    rfl
  have hgrammart : t.grammar = z.grammar := by
    rw [hkeeps.grammar, hmgrammar, hkeepsm.grammar]
    rfl
  have htargetst : t.facts.targets = z.facts.targets := by
    rw [hkeeps.facts, hmfacts, hkeepsm.facts]
    rfl
  have hsolve : Consumption.solve z.grammar z.facts = Consumption.solve t.grammar t.facts := by
    rw [Consumption.solve, Consumption.solve, Consumption.start, Consumption.start, htargetst,
      hgrammart]
  refine ⟨x, hkeepsx.grammar, hkeepsx.facts, hgrammart.trans hgrammarz,
    htargetst.trans htargetsz, ?_, fun index hlt => ?_⟩
  · rw [← hsolve, hkeeps.facts, hmfacts, hkeepsm.facts]
    rfl
  · have hnamed : Linked y.nameElements :=
      ((linked_elideProxies x).keeps hkeepsy).congr rfl rfl rfl fun _ => id
    have hlinked : Linked z := hnamed.keeps hkeepsz
    have hrecord : t.facts.record? index = m.facts.record? index := by
      simp only [hkeeps.facts, hmfacts, Facts.record?, Array.getElem?_mapIdx, Option.bind_map]
      rfl
    rw [← hsolve, hrecord, hkeepsm.facts]
    exact Facts.record?_analyze hlinked.rules (hgrammart ▸ hlt)

/-- Emitting source leaves everything else alone, whether it goes well or not. -/
theorem emitSource_keeps {s t : Session} {v : Verdict} (h : s.emitSource = (v, t)) :
    t.grammar = s.grammar ∧ t.facts = s.facts ∧ t.program = s.program := by
  unfold emitSource at h
  split at h
  · cases h
    exact ⟨rfl, rfl, rfl⟩
  · split at h
    · cases h
      exact ⟨rfl, rfl, rfl⟩
    · split at h
      · cases h
        exact ⟨rfl, rfl, rfl⟩
      · cases h
        exact ⟨rfl, rfl, rfl⟩

theorem keeps_defects (s : Session) (ds : Array (String × Option Location)) :
    s.Keeps (ds.foldl (fun s (message, location) => s.error message location) s) := by
  rw [← Array.foldl_toList]
  exact Keeps.foldl (fun t (d : String × Option Location) => keeps_error t d.1 d.2) _ s

/-- Generating a program leaves the grammar and its facts alone, whether it goes well or not. -/
theorem generateProgram_keeps {s t : Session} {v : Verdict} (h : s.generateProgram = (v, t)) :
    t.grammar = s.grammar ∧ t.facts = s.facts := by
  unfold generateProgram at h
  split at h
  · cases h
    exact ⟨rfl, rfl⟩
  · next code hcode =>
    have hkeeps := keeps_defects s code.pools.defects
    cases h
    exact ⟨hkeeps.grammar, hkeeps.facts⟩

theorem generateProgram_eq_ok {s t : Session} (h : s.generateProgram = (.ok (), t)) :
    ∃ code trace, s.facts.generate s.grammar = .ok code ∧
      t.program = some (code.program s.grammar s.facts trace) := by
  unfold generateProgram at h
  split at h
  · cases h
  · next code hcode =>
    have hkeeps := keeps_defects s code.pools.defects
    cases h
    exact ⟨code, _, hcode,
      congrArg₂ (fun g f => some (code.program g f _)) hkeeps.grammar hkeeps.facts⟩

/-- What is generated is for the grammar at the end. -/
theorem of_generate (h : Stage.run ⟨"generate", [.bytecode, .source]⟩ s = (.ok (), t)) :
    t.grammar = s.grammar ∧ t.facts = s.facts ∧ ∃ code trace,
      s.facts.generate s.grammar = .ok code ∧
      t.program = some (code.program s.grammar s.facts trace) := by
  obtain ⟨v, hpasses, hkeeps, -⟩ := Stage.run_eq_ok h
  obtain ⟨u₁, u₂, hkeeps₁, hbytecode, hpasses⟩ := Stage.runPasses_cons hpasses
  obtain ⟨u₃, u₄, hkeeps₃, hsource, hpasses⟩ := Stage.runPasses_cons hpasses
  obtain rfl := Stage.runPasses_nil hpasses
  obtain ⟨hgrammar₂, hfacts₂⟩ := generateProgram_keeps hbytecode
  obtain ⟨code, trace, hcode, hprogram⟩ := generateProgram_eq_ok hbytecode
  obtain ⟨hgrammar₄, hfacts₄, hprogram₄⟩ := emitSource_keeps hsource
  have hg : u₁.grammar = s.grammar := hkeeps₁.grammar
  have hf : u₁.facts = s.facts := hkeeps₁.facts
  rw [hg, hf] at hcode hprogram
  refine ⟨?_, ?_, code, trace, hcode, ?_⟩
  · rw [hkeeps.grammar, hgrammar₄, hkeeps₃.grammar, hgrammar₂, hg]
  · rw [hkeeps.facts, hfacts₄, hkeeps₃.facts, hfacts₂, hf]
  · rw [hkeeps.program, hprogram₄, hkeeps₃.program, hprogram]

end Accepted

/-- A compilation that goes well ends where its last pass led to. -/
theorem run_of_compile {g : Grammar} {options : Options} {listeners : Nat} {compiled : Compiled}
    {s : Session} (h : compile g options listeners = (.ok compiled, s)) :
    Pipeline.standard.run ((Session.start g options listeners).logs .info (greeting g options)) =
      (.ok (), s) := by
  unfold compile at h
  dsimp only at h
  split at h
  · cases h
  · next t hrun =>
    obtain rfl : t = s := congrArg Prod.snd h
    exact hrun

/-- What a compilation gives is what its last session gives. -/
theorem result_of_compile {g : Grammar} {options : Options} {listeners : Nat} {compiled : Compiled}
    {s : Session} (h : compile g options listeners = (.ok compiled, s)) :
    s.result = .ok compiled := by
  have hrun := run_of_compile h
  unfold compile at h
  dsimp only at h
  rw [hrun] at h
  exact congrArg Prod.fst h

/-- A grammar that is compiled without errors is accepted. -/
theorem compile_eq_ok {g : Grammar} {options : Options} {listeners : Nat} {compiled : Compiled}
    {s : Session} (h : compile g options listeners = (.ok compiled, s)) :
    ∃ p c x, Accepted g p c x s := by
  obtain ⟨s₁, hprepare, hrun⟩ := Pipeline.run_cons (run_of_compile h)
  obtain ⟨s₂, hcheck, hrun⟩ := Pipeline.run_cons hrun
  obtain ⟨s₃, htransform, hrun⟩ := Pipeline.run_cons hrun
  obtain ⟨s₄, hgenerate, hrun⟩ := Pipeline.run_cons hrun
  cases hrun
  obtain ⟨hgrammar₁, hlinked⟩ := Accepted.of_prepare hprepare
  obtain ⟨p, c, hp, hpfacts, hnoMissing, hcgrammar, hcfacts, hleft, hloops, hkeeps⟩ :=
    Accepted.of_check hcheck
  obtain ⟨x, hx, hxfacts, hgrammar₃, htargets, hconsumption, hrecords⟩ :=
    Accepted.of_transform htransform
  obtain ⟨hgrammar₄, hfacts₄, code, trace, hcode, hprogram⟩ := Accepted.of_generate hgenerate
  have hg : s₁.grammar = g := hgrammar₁
  refine ⟨p, c, x, hp.trans hg, ?_, hnoMissing, hcgrammar, hcfacts, hleft, hloops,
    hx.trans hkeeps.grammar, hxfacts.trans hkeeps.facts, hgrammar₄.trans hgrammar₃, ?_, ?_,
    ?_, code, trace, ?_, ?_⟩
  · rw [hpfacts, ← hg]
    exact hlinked
  · rw [hfacts₄, htargets]
  · rw [hfacts₄, hgrammar₄, hconsumption]
  · rw [hfacts₄, hgrammar₄]
    exact hrecords
  · rw [hfacts₄, hgrammar₄, hcode]
  · rw [hfacts₄, hgrammar₄, hprogram]

/-- A compilation that goes well gives something. -/
theorem exists_compiled {g : Grammar} {options : Options} {listeners : Nat}
    (h : (compile g options listeners).1.isOk = true) :
    ∃ compiled, compile g options listeners = (.ok compiled, (compile g options listeners).2) := by
  cases hresult : (compile g options listeners).1 with
  | error e =>
    rw [hresult] at h
    cases h
  | ok compiled => exact ⟨compiled, Prod.ext hresult rfl⟩

/-- What a grammar ends as, and its facts, are resolved. -/
theorem Accepted.resolved {g : Grammar} {p c x s : Session} (h : Accepted g p c x s) :
    s.facts.Resolves s.grammar := by
  rw [h.finalGrammar]
  exact ((linked_elideProxies x).refers.congr h.finalTargets).resolves

end PegMachine
