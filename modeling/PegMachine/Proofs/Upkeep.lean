import PegMachine.Proofs.Accepted
import PegMachine.Proofs.Compiled
import PegMachine.Proofs.Needed

/-!
# Tables that keep up

A compilation is followed pass by pass. After the grammar was linked the tables are up to date after
each pass, since a pass that changes the grammar links it again. Once unused rules were dropped all
rules are needed. In the end the program starts from the rules that were resolved.
-/

namespace PegMachine

/-! ## Start rules -/

namespace StartRules

variable {g : Grammar}

theorem distinct_spec (names : List String) :
    (distinct names).Nodup ∧ ∀ name, name ∈ distinct names ↔ name ∈ names := by
  have hfold (seen names : List String) (hseen : seen.Nodup) :
      let found := names.foldl
        (fun seen name => if seen.contains name then seen else seen ++ [name]) seen
      found.Nodup ∧ ∀ name, name ∈ found ↔ name ∈ seen ∨ name ∈ names := by
    induction names generalizing seen with
    | nil => exact ⟨hseen, fun name => by simp⟩
    | cons first rest ih =>
      by_cases hfirst : first ∈ seen
      · have hcontains : seen.contains first = true := by simpa using hfirst
        simp only [List.foldl_cons, hcontains, if_true]
        obtain ⟨hnodup, hmem⟩ := ih seen hseen
        refine ⟨hnodup, fun name => (hmem name).trans ?_⟩
        rw [List.mem_cons]
        constructor
        · exact Or.imp_right .inr
        · rintro (h | rfl | h)
          · exact .inl h
          · exact .inl hfirst
          · exact .inr h
      · have hcontains : seen.contains first = false := by simpa using hfirst
        simp only [List.foldl_cons, hcontains, Bool.false_eq_true, if_false]
        obtain ⟨hnodup, hmem⟩ := ih (seen ++ [first])
          (List.nodup_append.mpr ⟨hseen, List.nodup_singleton _, by
            rintro a ha b hb rfl
            exact hfirst (List.mem_singleton.mp hb ▸ ha)⟩)
        refine ⟨hnodup, fun name => (hmem name).trans ?_⟩
        simp [or_assoc]
  obtain ⟨hnodup, hmem⟩ := hfold [] names List.nodup_nil
  exact ⟨hnodup, fun name => (hmem name).trans (by simp)⟩

/-- The start rules of a grammar that has rules are rules of it, and different ones. -/
theorem resolve_spec (requested : StartRules) (h : g.rules ≠ []) :
    (requested.resolve g).starters ≠ [] ∧ (requested.resolve g).starters.Nodup ∧
    ∀ name ∈ (requested.resolve g).starters, (g.ruleIndex? name).isSome := by
  unfold resolve
  dsimp only
  split
  · cases hrules : g.rules with
    | nil => exact absurd hrules h
    | cons first rest =>
      refine ⟨nofun, List.nodup_singleton _, fun name hname => ?_⟩
      rw [List.mem_singleton.mp hname, Grammar.ruleIndex?, hrules, List.findIdx?_isSome]
      simp
  · next hsome =>
    obtain ⟨hnodup, hmem⟩ := distinct_spec
      ((requested.names g).filter fun name => (g.ruleIndex? name).isSome)
    refine ⟨fun hnil => hsome (List.isEmpty_iff.mpr hnil), hnodup, fun name hname => ?_⟩
    exact (List.mem_filter.mp ((hmem name).mp hname)).2

end StartRules

/-! ## Following a compilation -/

/-- A pass that was run: its name, how it went, and the session that it led to. -/
structure PassRun where
  pass : String
  verdict : Verdict
  session : Session

/-- A step tells what the tables are like after its pass, unless there is nothing to link. -/
def PassRun.Counts (step : PassRun) : Prop := step.pass = "link" → step.verdict = .ok ()

namespace Stage

/-- The passes of a stage that are run, up to the first that fails. -/
def passSteps (stage : String) : List Pass → Session → List PassRun
  | [], _ => []
  | pass :: rest, s =>
    match pass.run (s.logs .debug ("pass " ++ stage ++ "." ++ pass.name)) with
    | (.error e, s) => [⟨pass.name, .error e, s⟩]
    | (.ok (), s) => ⟨pass.name, .ok (), s⟩ :: passSteps stage rest s

/-- The steps of a stage. -/
def steps (stage : Stage) (s : Session) : List PassRun :=
  passSteps stage.name stage.passes (stage.begun s)

/-- The last step is where the stage ends. -/
theorem runPasses_eq (stage : String) (passes : List Pass) (s : Session) :
    runPasses stage passes s = ((passSteps stage passes s).getLast?).elim (.ok (), s)
      fun step => (step.verdict, step.session) := by
  induction passes generalizing s with
  | nil => rfl
  | cons pass rest ih =>
    rw [runPasses, passSteps]
    rcases pass.run (s.logs .debug ("pass " ++ stage ++ "." ++ pass.name)) with ⟨v, t⟩
    cases v with
    | error e => rfl
    | ok =>
      dsimp only
      rw [ih, List.getLast?_cons]
      cases (passSteps stage rest t).getLast? <;> rfl

end Stage

namespace Pipeline

/-- The passes of all stages, in order. -/
def passes (p : Pipeline) : List Pass := p.flatMap (·.passes)

/-- The steps of all stages that are run. -/
def steps : Pipeline → Session → List PassRun
  | [], _ => []
  | stage :: rest, s =>
    stage.steps s ++ match stage.run s with
      | (.error _, _) => []
      | (.ok (), s) => steps rest s

end Pipeline

section

variable {P : Nat → Session → Prop}

/-- What holds after so many passes does not depend on what was said. -/
def SaidOnly (P : Nat → Session → Prop) : Prop := ∀ n s t, t.grammar = s.grammar →
  t.facts = s.facts → t.options = s.options → P n s → P n t

/-- What the next pass makes of what held before it. -/
def Advances (P : Nat → Session → Prop) (n : Nat) (pass : Pass) : Prop :=
  ∀ s v t, P n s → pass.run s = (v, t) → (pass.name = "link" → v = .ok ()) → P (n + 1) t

theorem Stage.passSteps_induct (hsaid : SaidOnly P) (stage : String) {passes : List Pass} {n : Nat}
    (hpass : ∀ i pass, passes[i]? = some pass → Advances P (n + i) pass) {s : Session}
    (h : P n s) :
    (∀ i step, (passSteps stage passes s)[i]? = some step →
      (passes[i]?).map (·.name) = some step.pass ∧ (step.Counts → P (n + i + 1) step.session)) ∧
    ∀ t, runPasses stage passes s = (.ok (), t) → P (n + passes.length) t := by
  induction passes generalizing n s with
  | nil =>
    refine ⟨fun i step hstep => by simp [passSteps] at hstep, fun t ht => ?_⟩
    obtain rfl : s = t := congrArg Prod.snd ht
    exact h
  | cons pass rest ih =>
    have hfirst := hpass 0 pass rfl
    have hlogged := hsaid n s (s.logs .debug ("pass " ++ stage ++ "." ++ pass.name)) rfl rfl rfl h
    rw [passSteps, runPasses]
    rcases hrun : pass.run (s.logs .debug ("pass " ++ stage ++ "." ++ pass.name)) with ⟨v, t⟩
    cases v with
    | error e =>
      refine ⟨fun i step hstep => ?_, fun u hu => ?_⟩
      · rw [List.getElem?_singleton] at hstep
        split at hstep
        · next hi =>
          obtain rfl := Option.some.inj hstep
          subst hi
          exact ⟨rfl, hfirst _ _ _ hlogged hrun⟩
        · cases hstep
      · cases congrArg Prod.fst hu
    | ok =>
      have hrest : ∀ i pass, rest[i]? = some pass → Advances P (n + 1 + i) pass := by
        intro i pass hi
        have hi := hpass (i + 1) pass hi
        rwa [← Nat.add_assoc, Nat.add_right_comm] at hi
      have hthen : P (n + 1) t := hfirst _ _ _ hlogged hrun fun _ => rfl
      obtain ⟨hsteps, hend⟩ := ih hrest hthen
      refine ⟨fun i step hstep => ?_, fun u hu => ?_⟩
      · cases i with
        | zero =>
          obtain rfl := Option.some.inj hstep
          exact ⟨rfl, fun _ => hthen⟩
        | succ i =>
          have hi := hsteps i step hstep
          rwa [Nat.add_right_comm n 1 i, Nat.add_assoc n i 1] at hi
      · have hu := hend u hu
        rwa [Nat.add_right_comm, Nat.add_assoc] at hu

theorem Stage.length_passSteps {stage : String} {passes : List Pass} {s t : Session}
    (h : runPasses stage passes s = (.ok (), t)) :
    (passSteps stage passes s).length = passes.length := by
  induction passes generalizing s with
  | nil => rfl
  | cons pass rest ih =>
    rw [runPasses] at h
    rw [passSteps]
    generalize pass.run (s.logs .debug ("pass " ++ stage ++ "." ++ pass.name)) = out at h ⊢
    rcases out with ⟨v, u⟩
    cases v with
    | error e => cases congrArg Prod.fst h
    | ok => exact congrArg (· + 1) (ih h)

/-- What holds of a session and is kept by each pass that goes well holds after each pass. -/
theorem Pipeline.steps_induct (hsaid : SaidOnly P) {p : Pipeline} {n : Nat}
    (hpass : ∀ i pass, p.passes[i]? = some pass → Advances P (n + i) pass) {s : Session}
    (h : P n s) :
    (∀ i step, (p.steps s)[i]? = some step →
      (p.passes[i]?).map (·.name) = some step.pass ∧
        (step.Counts → P (n + i + 1) step.session)) ∧
    ∀ t, p.run s = (.ok (), t) → P (n + p.passes.length) t := by
  induction p generalizing n s with
  | nil =>
    refine ⟨fun i step hstep => by simp [steps] at hstep, fun t ht => ?_⟩
    obtain rfl : s = t := congrArg Prod.snd ht
    exact h
  | cons stage rest ih =>
    have hfirst : ∀ i pass, stage.passes[i]? = some pass → Advances P (n + i) pass := by
      intro i pass hi
      refine hpass i pass ?_
      rw [passes, List.flatMap_cons,
        List.getElem?_append_left (List.getElem?_eq_some_iff.mp hi).1, hi]
    obtain ⟨hsteps, hend⟩ := Stage.passSteps_induct hsaid stage.name hfirst
      (hsaid n s (stage.begun s) rfl rfl rfl h)
    have hleft (i : Nat) (step : PassRun) (hstep : (stage.steps s)[i]? = some step) :
        (passes (stage :: rest))[i]?.map (·.name) = some step.pass ∧
          (step.Counts → P (n + i + 1) step.session) := by
      obtain ⟨hname, hP⟩ := hsteps i step hstep
      obtain ⟨pass, hpass, hname⟩ := Option.map_eq_some_iff.mp hname
      refine ⟨?_, hP⟩
      rw [passes, List.flatMap_cons,
        List.getElem?_append_left (List.getElem?_eq_some_iff.mp hpass).1, hpass]
      exact congrArg some hname
    rw [steps, run]
    rcases hrun : stage.run s with ⟨v, t⟩
    cases v with
    | error e =>
      refine ⟨fun i step hstep => hleft i step (by simpa using hstep), fun u hu => ?_⟩
      cases congrArg Prod.fst hu
    | ok =>
      obtain ⟨v, hpasses, hkeeps, -⟩ := Stage.run_eq_ok hrun
      have ht : P (n + stage.passes.length) t :=
        hsaid _ v t hkeeps.grammar hkeeps.facts hkeeps.options (hend v hpasses)
      have hrest : ∀ i pass, (passes rest)[i]? = some pass →
          Advances P (n + stage.passes.length + i) pass := by
        intro i pass hi
        rw [Nat.add_assoc]
        refine hpass _ pass ?_
        rw [passes, List.flatMap_cons, List.getElem?_append_right (Nat.le_add_right _ _),
          Nat.add_sub_cancel_left]
        exact hi
      obtain ⟨hstepsrest, hendrest⟩ := ih hrest ht
      have hlength : (stage.steps s).length = stage.passes.length := Stage.length_passSteps hpasses
      refine ⟨fun i step hstep => ?_, fun u hu => ?_⟩
      · by_cases hi : i < stage.passes.length
        · rw [List.getElem?_append_left (hlength ▸ hi)] at hstep
          exact hleft i step hstep
        · rw [List.getElem?_append_right (by omega), hlength] at hstep
          obtain ⟨hname, hP⟩ := hstepsrest _ step hstep
          have hplace : n + stage.passes.length + (i - stage.passes.length) = n + i := by omega
          rw [hplace] at hP
          refine ⟨?_, hP⟩
          rwa [passes, List.flatMap_cons, List.getElem?_append_right (Nat.le_of_not_lt hi)]
      · have hu := hendrest u hu
        rwa [Nat.add_assoc, passes, ← List.length_append] at hu

end

/-! ## What passes do to the tables -/

namespace Facts

variable {f : Facts} {g : Grammar}

theorem size_describeChain (d : Description) (stopAtNamed : Bool) (n : Nat) (id : NodeId)
    (table : Array (Option Description)) :
    (describeChain g d stopAtNamed n id table).size = table.size := by
  induction n generalizing id table with
  | zero => rfl
  | succ n ih =>
    rw [describeChain]
    split
    · rfl
    · split
      · rfl
      · dsimp only
        split
        · rw [ih, Array.size_setIfInBounds]
        · rw [Array.size_setIfInBounds]

/-- Writing into a table does not change its size, however often it is done. -/
theorem size_foldl {α β : Type} {write : Array α → β → Array α}
    (hwrite : ∀ table b, (write table b).size = table.size) (bs : List β) (table : Array α) :
    (bs.foldl write table).size = table.size := by
  induction bs generalizing table with
  | nil => rfl
  | cons b bs ih => exact (ih _).trans (hwrite table b)

theorem size_describe (f : Facts) (g : Grammar) :
    (f.describe g).descriptions.size = f.descriptions.size := by
  refine size_foldl (fun table rule => ?_) _ _
  refine (size_foldl (fun table id => ?_) _ _).trans (size_describeChain _ _ _ _ _)
  unfold describeNode
  dsimp only
  split
  · exact size_describeChain _ _ _ _ _
  · exact size_describeChain _ _ _ _ _
  · rfl

theorem size_nameElements (f : Facts) (g : Grammar) :
    (f.nameElements g).autoLabels.size = f.autoLabels.size := by
  refine size_foldl (fun names id => ?_) _ _
  split
  · exact size_foldl (fun names e => Array.size_setIfInBounds) _ _
  · rfl

theorem sized_analyze (h : f.Sized g) : (f.analyze g).Sized g where
  depth := h.depth
  parent := h.parent
  ruleOf := h.ruleOf
  targets := h.targets
  descriptions := h.descriptions
  consumption := by
    have htable (c : Consumption.Context) :
        (Consumption.nodeTable c).size = c.grammar.nodes.size :=
      (size_foldl (fun _ _ => Array.size_setIfInBounds) _ _).trans Array.size_replicate
    rw [analyze, htable, (Consumption.rises_solve g f).grammar]
    rfl
  autoLabels := h.autoLabels
  rules := Array.size_mapIdx.trans h.rules

/-- Analyses do not touch what follows from structure. -/
theorem structural_mapIdx {change : Nat → RuleFacts → RuleFacts}
    (hchange : ∀ i r, (change i r).structural = r.structural) (rules : Array RuleFacts) :
    (rules.mapIdx change).map RuleFacts.structural = rules.map RuleFacts.structural := by
  refine Array.ext_getElem? fun i => ?_
  rw [Array.getElem?_map, Array.getElem?_mapIdx, Option.map_map, Array.getElem?_map]
  exact congrArg (Option.map · _) (funext fun r => hchange i r)

end Facts

/-! ## What holds along the way -/

/-- What holds of a compilation of a grammar after so many passes. The first pass links, and the
sixth one drops unused rules. -/
structure Upkeep (g : Grammar) (options : Options) (n : Nat) (s : Session) : Prop where
  begun : n = 0 → s.options = options
  whole : n ≤ 5 → s.grammar = g
  linked : n ≠ 0 → s.UpToDate
  starters : n ≠ 0 → s.facts.starters = (options.startRules.resolve g).starters
  selects : n ≠ 0 → ∃ kept, g.Selects s.grammar kept ∧
    g.KeepsFirst s.grammar kept (options.startRules.resolve g).starters
  dropped : n = 6 → g.LeavesReachable (options.startRules.resolve g).starters s.grammar
  needed : 6 ≤ n → s.AllNeeded

namespace Upkeep

variable {g : Grammar} {options : Options} {n : Nat} {s t : Session}

theorem saidOnly : SaidOnly (Upkeep g options) := by
  intro n s t hgrammar hfacts hoptions h
  refine ⟨fun hn => hoptions.trans (h.begun hn), fun hn => hgrammar.trans (h.whole hn),
    fun hn => (h.linked hn).congr hgrammar ?_ ?_ (by rw [hfacts]), fun hn => ?_, fun hn => ?_,
    fun hn => ?_, fun hn => (h.needed hn).congr hgrammar (by rw [hfacts])⟩
  · rw [hfacts, hgrammar]
    exact (h.linked hn).sized
  · rw [hfacts]
    exact .refl _
  · rw [hfacts]
    exact h.starters hn
  · rw [hgrammar]
    exact h.selects hn
  · rw [hgrammar]
    exact h.dropped hn

/-- Nothing is linked yet when a compilation begins. -/
theorem begin (g : Grammar) (options : Options) (listeners : Nat) : Upkeep g options 0
    ((Session.start g options listeners).logs .info (greeting g options)) :=
  ⟨fun _ => rfl, fun _ => rfl, fun h => absurd rfl h, fun h => absurd rfl h,
    fun h => absurd rfl h, nofun, nofun⟩

/-- A pass that neither links nor drops rules and that leaves what follows from structure alone. -/
theorem next (h : Upkeep g options n s) (hn : n ≠ 0) (hn' : n ≠ 5)
    (hgrammar : t.grammar = s.grammar) (hsized : s.facts.Sized s.grammar → t.facts.Sized s.grammar)
    (hsame : t.facts.SameStructure s.facts) (hstarters : t.facts.starters = s.facts.starters) :
    Upkeep g options (n + 1) t := by
  refine ⟨nofun, fun hle => hgrammar.trans (h.whole (by omega)), fun _ => ?_, fun _ => ?_,
    fun _ => ?_, fun hsix => absurd hsix (by omega), fun hle => ?_⟩
  · have hlinked := h.linked hn
    exact hlinked.congr hgrammar (hgrammar ▸ hsized hlinked.sized) hsame hstarters
  · exact hstarters.trans (h.starters hn)
  · rw [hgrammar]
    exact h.selects hn
  · exact (h.needed (by omega)).congr hgrammar hstarters

theorem next_of_keeps (h : Upkeep g options n s) (hn : n ≠ 0) (hn' : n ≠ 5) (hkeeps : s.Keeps t) :
    Upkeep g options (n + 1) t := by
  refine h.next hn hn' hkeeps.grammar ?_ ?_ ?_
  · rw [hkeeps.facts]
    exact id
  · rw [hkeeps.facts]
    exact .refl _
  · rw [hkeeps.facts]

/-- The grammar is linked. -/
theorem linkGrammar (h : Upkeep g options 0 s) (hrun : s.linkGrammar = (.ok (), t)) :
    Upkeep g options 1 t := by
  have hgrammar := h.whole (Nat.zero_le _)
  unfold Session.linkGrammar at hrun
  split at hrun
  · cases congrArg Prod.fst hrun
  · next hsome =>
    rw [h.begun rfl, hgrammar] at hrun
    dsimp only at hrun
    have hreported := s.keeps_reportStarters (options.startRules.resolve g)
    generalize s.reportStarters (options.startRules.resolve g) = u at hrun hreported
    obtain rfl := congrArg Prod.snd hrun
    have hu : u.grammar = g := hreported.grammar.trans hgrammar
    have hrules : g.rules ≠ [] := by
      rw [← hgrammar]
      simpa using hsome
    obtain ⟨hnonempty, hdistinct, hresolved⟩ := options.startRules.resolve_spec hrules
    have hfacts : u.facts.link u.grammar (options.startRules.resolve g).starters =
        u.facts.link g (options.startRules.resolve g).starters := by rw [hu]
    refine ⟨nofun, fun _ => hu, fun _ => Session.upToDate_link hfacts hu hnonempty
      hdistinct hresolved, fun _ => Facts.starters_link _ _ _, fun _ => ?_, nofun, nofun⟩
    refine ⟨List.range g.rules.length, ?_, fun name hname => ?_⟩
    · exact hu ▸ .refl g
    · obtain ⟨index, hindex⟩ := Option.isSome_iff_exists.mp (hresolved name hname)
      exact ⟨index, index, hu ▸ hindex, hindex, List.getElem?_range (Facts.ruleIndex?_lt hindex)⟩

/-- Unused rules are dropped. -/
theorem dropUnusedRules (htrees : g.HasTrees) (h : Upkeep g options 5 s) :
    Upkeep g options 6 s.dropUnusedRules := by
  have hgrammar := h.whole (Nat.le_refl _)
  have hlinked := h.linked nofun
  have hstarters := h.starters nofun
  subst hgrammar
  refine ⟨nofun, fun hle => by omega, fun _ => hlinked.dropUnusedRules.1,
    fun _ => hlinked.dropUnusedRules.2.trans hstarters, fun _ => ?_, fun _ => ?_,
    fun _ => hlinked.allNeeded_dropUnusedRules htrees⟩
  · refine ⟨s.grammar.kept s.unused, ?_, hstarters ▸ hlinked.keepsFirst_dropUnusedRules⟩
    rw [Session.dropUnusedRules_grammar]
    exact Grammar.selects_removeRules _ _
  · rw [← hstarters, Session.dropUnusedRules_grammar]
    exact ⟨rfl, s.grammar.kept s.unused, List.pairwise_lt_range.filter _,
      Grammar.rules_removeRules _ _, fun _ => hlinked.mem_kept htrees⟩

/-- Proxies are taken out. -/
theorem elideProxies (h : Upkeep g options n s) (hn : 6 ≤ n) :
    Upkeep g options (n + 1) s.elideProxies := by
  have hlinked := h.linked (by omega)
  have hstarters := h.starters (by omega)
  obtain ⟨helided, helidedStarters, hneeded, kept', hselects', hfirst'⟩ :=
    hlinked.elideProxies (h.needed hn)
  obtain ⟨kept, hselects, hfirst⟩ := h.selects (by omega)
  refine ⟨nofun, fun hle => by omega, fun _ => helided, fun _ => helidedStarters.trans hstarters,
    fun _ => ⟨_, hselects.trans hselects', ?_⟩, fun _ => by omega, fun _ => hneeded⟩
  exact hfirst.trans (hstarters ▸ hfirst')

/-- A pass that only says something keeps everything. -/
theorem advances_of_keeps {f : Session → Session} (hf : ∀ s : Session, s.Keeps (f s)) (hn : n ≠ 0)
    (hn' : n ≠ 5) (name : String) : Advances (Upkeep g options) n (.ofFunction name f) := by
  intro s v t h hrun _
  obtain rfl := congrArg Prod.snd hrun
  exact h.next_of_keeps hn hn' (hf s)

theorem advances_consumption (hn : n ≠ 0) (hn' : n ≠ 5) :
    Advances (Upkeep g options) n .consumption := by
  intro s v t h hrun _
  obtain rfl := congrArg Prod.snd hrun
  refine h.next hn hn' rfl Facts.sized_analyze ⟨rfl, rfl, rfl, rfl, ?_⟩ rfl
  refine Facts.structural_mapIdx (fun i r => ?_) s.facts.rules
  rfl

theorem advances_memoization (hn : n ≠ 0) (hn' : n ≠ 5) :
    Advances (Upkeep g options) n .memoization := by
  intro s v t h hrun _
  obtain rfl := congrArg Prod.snd hrun
  obtain ⟨decided, on, hgrammar, hfacts⟩ := Accepted.decideMemoization_eq s
  refine h.next hn hn' hgrammar (fun hsized => ?_) ?_ ?_
  · exact hfacts ▸ { hsized with rules := Array.size_mapIdx.trans hsized.rules }
  · refine hfacts ▸ ⟨rfl, rfl, rfl, rfl, ?_⟩
    refine Facts.structural_mapIdx (fun i r => ?_) s.facts.rules
    rfl
  · exact hfacts ▸ rfl

/-- Generating leaves the tables alone, whether it goes well or not. -/
theorem advances_of_same {pass : Pass} (hpass : ∀ s v t, pass.run s = (v, t) →
      t.grammar = s.grammar ∧ t.facts = s.facts) (hn : n ≠ 0) (hn' : n ≠ 5) :
    Advances (Upkeep g options) n pass := by
  intro s v t h hrun _
  obtain ⟨hgrammar, hfacts⟩ := hpass s v t hrun
  exact h.next hn hn' hgrammar (hfacts ▸ id) (hfacts ▸ .refl _) (congrArg _ hfacts)

/-- Each pass of a compilation does what it has to do. -/
theorem advances (htrees : g.HasTrees) (i : Nat) (pass : Pass)
    (hpass : Pipeline.standard.passes[i]? = some pass) : Advances (Upkeep g options) i pass := by
  match i with
  | 0 =>
    cases hpass
    intro s v t h hrun hv
    obtain rfl := hv rfl
    exact h.linkGrammar hrun
  | 1 =>
    cases hpass
    intro s v t h hrun _
    obtain rfl := congrArg Prod.snd hrun
    exact h.next nofun nofun rfl (fun h => { h with }) ⟨rfl, rfl, rfl, rfl, rfl⟩ rfl
  | 2 =>
    cases hpass
    intro s v t h hrun _
    obtain rfl := congrArg Prod.snd hrun
    refine h.next nofun nofun rfl (fun h => ?_) ⟨rfl, rfl, rfl, rfl, rfl⟩ rfl
    exact { h with descriptions := (Facts.size_describe _ _).trans h.descriptions }
  | 3 =>
    cases hpass
    exact advances_of_keeps Session.keeps_checkDuplicateRules (by decide) (by decide) _
  | 4 =>
    cases hpass
    exact advances_of_keeps Session.keeps_checkMissingRules (by decide) (by decide) _
  | 5 =>
    cases hpass
    intro s v t h hrun _
    obtain rfl := congrArg Prod.snd hrun
    exact h.dropUnusedRules htrees
  | 6 =>
    cases hpass
    exact advances_consumption (by decide) (by decide)
  | 7 =>
    cases hpass
    exact advances_of_keeps Session.keeps_checkLeftRecursion (by decide) (by decide) _
  | 8 =>
    cases hpass
    exact advances_of_keeps Session.keeps_checkEndlessLoops (by decide) (by decide) _
  | 9 =>
    cases hpass
    exact advances_of_keeps Session.keeps_checkLabels (by decide) (by decide) _
  | 10 =>
    cases hpass
    intro s v t h hrun _
    obtain rfl := congrArg Prod.snd hrun
    exact h.elideProxies (by decide)
  | 11 =>
    cases hpass
    intro s v t h hrun _
    obtain rfl := congrArg Prod.snd hrun
    refine h.next nofun nofun rfl (fun h => ?_) ⟨rfl, rfl, rfl, rfl, rfl⟩ rfl
    exact { h with autoLabels := (Facts.size_nameElements _ _).trans h.autoLabels }
  | 12 =>
    cases hpass
    exact advances_consumption (by decide) (by decide)
  | 13 =>
    cases hpass
    exact advances_memoization (by decide) (by decide)
  | 14 =>
    cases hpass
    exact advances_of_same (fun _ _ _ h => Accepted.generateProgram_keeps h) (by decide) (by decide)
  | 15 =>
    cases hpass
    refine advances_of_same (fun _ _ _ h => ?_) (by decide) (by decide)
    obtain ⟨hgrammar, hfacts, -⟩ := Accepted.emitSource_keeps h
    exact ⟨hgrammar, hfacts⟩
  | n + 16 => cases hpass

end Upkeep

/-! ## The whole compilation -/

/-- The passes that a compilation runs. -/
def compileSteps (g : Grammar) (options : Options) (listeners : Nat) : List PassRun :=
  Pipeline.standard.steps ((Session.start g options listeners).logs .info (greeting g options))

/-- A program starts from rules with some names, which were the first ones with these names in the
grammar that was compiled. -/
structure Program.StartsFrom (P : Program) (g : Grammar) (names : List String)
    (kept : List Nat) : Prop where
  starters : List.Forall₂ (fun name index => ∃ first r, g.ruleIndex? name = some first ∧
    kept[index]? = some first ∧ P.rules[index]? = some r ∧ r.name = name) names P.starters
  default : P.starters.head? = some P.defaultStart

theorem forall₂_filterMap {α β : Type} {R : α → β → Prop} {find : α → Option β} {as : List α}
    (h : ∀ a ∈ as, ∃ b, find a = some b ∧ R a b) : List.Forall₂ R as (as.filterMap find) := by
  induction as with
  | nil => exact .nil
  | cons a as ih =>
    obtain ⟨b, hb, hR⟩ := h a List.mem_cons_self
    rw [List.filterMap_cons_some hb]
    exact .cons hR (ih fun a ha => h a (List.mem_cons_of_mem _ ha))

/-- The program of a grammar starts from its start rules. -/
theorem startsFrom_program {g g' : Grammar} {f : Facts} {code : Generated} {kept : List Nat}
    (hcode : f.generate g' = .ok code) (trace : Bool) (hsome : f.starters ≠ [])
    (hfirst : g.KeepsFirst g' kept f.starters) :
    (code.program g' f trace).StartsFrom g f.starters kept := by
  constructor
  · refine forall₂_filterMap fun name hname => ?_
    obtain ⟨place, first, hplace, hindex, hkept⟩ := hfirst name hname
    obtain ⟨r, hr, rfl⟩ := Grammar.name_of_ruleIndex? hplace
    obtain ⟨r', hr', hsame⟩ := Generated.exists_rule hcode trace hr
    exact ⟨place, hplace, first, r', hindex, hkept, hr', hsame⟩
  · cases hstarters : f.starters with
    | nil => exact absurd hstarters hsome
    | cons name rest =>
      obtain ⟨place, -, hplace, -⟩ := hfirst name (hstarters ▸ List.mem_cons_self)
      have hindices : f.starterIndices g' = place :: rest.filterMap g'.ruleIndex? := by
        rw [Facts.starterIndices, hstarters, List.filterMap_cons_some hplace]
      simp [Generated.program, hindices]

/-- Only the sixth pass drops unused rules. -/
theorem eq_five_of_name {i : Nat}
    (h : (Pipeline.standard.passes[i]?).map (·.name) = some "unused_rules") : i = 5 := by
  have hnames : ∀ i < 16, (Pipeline.standard.passes.map (·.name))[i]? = some "unused_rules" →
      i = 5 := by decide
  obtain ⟨pass, hpass, -⟩ := Option.map_eq_some_iff.mp h
  refine hnames i (List.getElem?_eq_some_iff.mp hpass).1 ?_
  rwa [List.getElem?_map]

/-- A compilation that goes well has kept the tables up to the end. -/
theorem Upkeep.of_compile {source : GrammarSource} {options : Options} {listeners : Nat}
    {compiled : Compiled} {s : Session}
    (h : compile (.ofSource source) options listeners = (.ok compiled, s)) :
    Upkeep (.ofSource source) options Pipeline.standard.passes.length s := by
  rw [← Nat.zero_add Pipeline.standard.passes.length]
  refine (Pipeline.steps_induct Upkeep.saidOnly (fun i pass hpass => ?_)
    (Upkeep.begin (.ofSource source) options listeners)).2 s (run_of_compile h)
  rw [Nat.zero_add]
  exact Upkeep.advances (Grammar.ofSource_hasTrees source) i pass hpass

/-- All rules that a parse may start from are rules of the program. -/
theorem Program.StartsFrom.startIndex_lt {P : Program} {g : Grammar} {names : List String}
    {kept : List Nat} (h : P.StartsFrom g names kept) {name : Option String} {index : Nat}
    (hindex : P.startIndex name = .ok index) : index < P.rules.size := by
  have hlt (index : Nat) (hmem : index ∈ P.starters) : index < P.rules.size := by
    obtain ⟨i, hi⟩ := List.mem_iff_getElem?.mp hmem
    have hrel := getElem?_rel h.starters i
    rw [hi] at hrel
    generalize names[i]? = name at hrel
    cases hrel with
    | some hstarts =>
      obtain ⟨first, r, -, -, hr, -⟩ := hstarts
      exact (Array.getElem?_eq_some_iff.mp hr).1
  cases name with
  | none =>
    cases hindex
    exact hlt _ (List.mem_of_head? h.default)
  | some name =>
    rw [Program.startIndex] at hindex
    split at hindex
    · next found hfound =>
      cases hindex
      exact hlt _ (List.mem_of_find?_eq_some hfound)
    · cases hindex

/-- The tables are up to date after linking and after each later pass. Once unused rules are
dropped, the rules have names of their own and are the ones that are reachable from start rules, in
the order in which they were declared. In the end the program starts from the rules that were resolved. -/
theorem compile_keepsUp (source : GrammarSource) (options : Options) (listeners : Nat) :
    let g := Grammar.ofSource source
    let starters := (options.startRules.resolve g).starters
    (∀ (i : Nat) (step : PassRun), (compileSteps g options listeners)[i]? = some step →
      step.Counts →
      step.session.UpToDate ∧ step.session.facts.starters = starters ∧
      (step.pass = "unused_rules" → g.LeavesReachable starters step.session.grammar) ∧
      ("unused_rules" ∈ ((compileSteps g options listeners).take (i + 1)).map (·.pass) →
        step.session.AllNeeded ∧ ∃ kept, g.Selects step.session.grammar kept)) ∧
    ∀ compiled s, compile g options listeners = (.ok compiled, s) →
      s.UpToDate ∧ s.facts.starters = starters ∧ s.AllNeeded ∧
      ∃ P kept, s.program = some P ∧ g.Selects s.grammar kept ∧ P.StartsFrom g starters kept := by
  intro g starters
  have hbegin := Upkeep.begin g options listeners
  have hpasses : ∀ i pass, Pipeline.standard.passes[i]? = some pass →
      Advances (Upkeep g options) (0 + i) pass := by
    intro i pass hpass
    rw [Nat.zero_add]
    exact Upkeep.advances (Grammar.ofSource_hasTrees source) i pass hpass
  obtain ⟨hsteps, hend⟩ := Pipeline.steps_induct Upkeep.saidOnly hpasses hbegin
  refine ⟨fun i step hstep hcounts => ?_, fun compiled s hcompile => ?_⟩
  · have hupkeep := (hsteps i step hstep).2 hcounts
    rw [Nat.zero_add] at hupkeep
    refine ⟨hupkeep.linked nofun, hupkeep.starters nofun, fun hpass => ?_, fun hran => ?_⟩
    · have hfive : i = 5 := eq_five_of_name (hpass ▸ (hsteps i step hstep).1)
      exact hupkeep.dropped (congrArg (· + 1) hfive)
    · obtain ⟨ran, hran, hpass⟩ := List.mem_map.mp hran
      obtain ⟨j, hj⟩ := List.mem_iff_getElem?.mp hran
      rw [List.getElem?_take] at hj
      split at hj
      · next hlt =>
        have hfive : j = 5 := eq_five_of_name (hpass ▸ (hsteps j ran hj).1)
        obtain ⟨kept, hselects, -⟩ := hupkeep.selects nofun
        exact ⟨hupkeep.needed (by omega), kept, hselects⟩
      · cases hj
  · obtain ⟨p, c, x, haccepted⟩ := compile_eq_ok hcompile
    obtain ⟨code, trace, hcode, hprogram⟩ := haccepted.program
    have hupkeep : Upkeep g options Pipeline.standard.passes.length s := by
      rw [← Nat.zero_add Pipeline.standard.passes.length]
      exact hend s (run_of_compile hcompile)
    have hstarters := hupkeep.starters nofun
    have hlinked := hupkeep.linked nofun
    obtain ⟨kept, hselects, hfirst⟩ := hupkeep.selects nofun
    refine ⟨hlinked, hstarters, hupkeep.needed (by decide), _, kept, hprogram, hselects, ?_⟩
    have hfrom : (code.program s.grammar s.facts trace).StartsFrom g s.facts.starters kept :=
      startsFrom_program hcode trace hlinked.starters_ne_nil (hstarters ▸ hfirst)
    rwa [hstarters] at hfrom

/-- A grammar with a rule that is not used and one that stands for another rule. -/
def proxied : GrammarSource where
  rules := [
    ⟨"start", .of (.sequence [.of (.ruleRef "alias"), .of (.ruleRef "letter")]), [], none⟩,
    ⟨"spare", .of .any, [], none⟩,
    ⟨"alias", .label "first" (.of (.ruleRef "letter")), [], none⟩,
    ⟨"letter", .charClass [.range 'a' 'z'] false false, [], none⟩]

/-- Two of its rules go, and the tables keep up through all passes. -/
theorem proxied_keepsUp : (compileSteps (.ofSource proxied) {} 0).length = 16 ∧
    ∃ compiled s, compile (.ofSource proxied) {} 0 = (.ok compiled, s) ∧
      s.grammar.rules.map (·.name) = ["start", "letter"] ∧ s.UpToDate ∧ s.AllNeeded := by
  have hends : (compileSteps (.ofSource proxied) {} 0).length = 16 ∧
      (compile (.ofSource proxied) {} 0).1.isOk = true ∧
      (compile (.ofSource proxied) {} 0).2.grammar.rules.map (·.name) = ["start", "letter"] := by
    decide +kernel
  obtain ⟨compiled, hcompiled⟩ := exists_compiled hends.2.1
  obtain ⟨hlinked, -, hneeded, -⟩ := (compile_keepsUp proxied {} 0).2 _ _ hcompiled
  exact ⟨hends.1, compiled, _, hcompiled, hends.2.2, hlinked, hneeded⟩

end PegMachine
