import PegMachine.Proofs.Upkeep

/-!
# What is memoized

Whether a rule is memoized is said by its own first annotation about that; else it is, if that was
forced; else the first annotation about the whole grammar says it, and else the options do. The
annotations are read when the rules are left that the program has, so what counts is the first one
about the whole grammar that stands at one of these.
-/

namespace PegMachine

/-! ## What annotations say -/

/-- The word `all` or `none`, if a parameter is one of these. -/
def Param.extent? : Param → Option String
  | .keyword "all" => some "all"
  | .keyword "none" => some "none"
  | _ => none

namespace Annotation

/-- The first parameter of an annotation that is the word `all` or `none`. -/
def extent? (a : Annotation) : Option String := a.params.findSome? Param.extent?

/-- What an annotation says about its rule. -/
def forRule? (a : Annotation) : Option Bool :=
  match a.name, a.extent? with
  | "cache", none => some true
  | "nocache", none => some false
  | _, _ => none

/-- What an annotation says about the whole grammar. -/
def forGrammar? (a : Annotation) : Option Bool :=
  match a.name, a.extent? with
  | "cache", some "all" => some true
  | "nocache", some "none" => some true
  | "cache", some "none" => some false
  | "nocache", some "all" => some false
  | _, _ => none

end Annotation

namespace Rule

/-- What a rule says about itself: the first of its annotations that does. -/
def ownPolicy? (r : Rule) : Option Bool := r.annotations.findSome? Annotation.forRule?

/-- What a rule says about the whole grammar: the first of its annotations that does. -/
def grammarPolicy? (r : Rule) : Option Bool := r.annotations.findSome? Annotation.forGrammar?

end Rule

namespace Grammar

/-- What the rules of a grammar say about all of it: the first of them that does. -/
def policy? (g : Grammar) : Option Bool := g.rules.findSome? Rule.grammarPolicy?

/-- Whether a rule is memoized: by its own annotation, else because that is forced, else by the
annotation for the grammar, else by the option. -/
def memoizes (g : Grammar) (options : Options) (r : Rule) : Bool :=
  r.ownPolicy?.getD (options.forceCache || g.policy?.getD options.cache)

end Grammar

namespace MemoPolicy

variable {index : Nat} {r : Rule} {p : MemoPolicy} {a : Annotation}

theorem extent?_eq (a : Annotation) : a.extent? =
    (a.params.filterMap Param.keyword?).find? fun k => k = "all" ∨ k = "none" := by
  unfold Annotation.extent?
  induction a.params with
  | nil => rfl
  | cons param params ih =>
    cases param with
    | keyword word =>
      rw [List.findSome?_cons, List.filterMap_cons, Param.keyword?, List.find?_cons, ih]
      by_cases hall : word = "all"
      · subst hall
        rfl
      by_cases hnone : word = "none"
      · subst hnone
        rfl
      simp [Param.extent?, hall, hnone]
    | _ => exact ih

/-- What a word says depends on the annotation. -/
theorem scope?_eq (cache : Bool) (a : Annotation) :
    scope? cache a = a.extent?.map fun k => cache == (k == "all") := by
  rw [scope?, extent?_eq]

theorem extent?_cases (a : Annotation) :
    a.extent? = none ∨ a.extent? = some "all" ∨ a.extent? = some "none" := by
  cases h : a.extent? with
  | none => exact .inl rfl
  | some word =>
    rw [extent?_eq] at h
    have hword := List.find?_some h
    simp only [decide_eq_true_eq] at hword
    rcases hword with rfl | rfl
    · exact .inr (.inl rfl)
    · exact .inr (.inr rfl)

theorem polarity?_bind {α : Type} (a : Annotation) (f : Bool → Option α) :
    (polarity? a).bind f =
      if a.name = "cache" then f true else if a.name = "nocache" then f false else none := by
  rw [polarity?]
  split
  · rfl
  · split <;> rfl

theorem forGrammar?_eq (a : Annotation) :
    a.forGrammar? = (polarity? a).bind fun cache => scope? cache a := by
  rw [polarity?_bind, scope?_eq, scope?_eq, Annotation.forGrammar?]
  by_cases hcache : a.name = "cache"
  · rw [if_pos hcache, hcache]
    rcases extent?_cases a with h | h | h <;> rw [h] <;> rfl
  by_cases hnocache : a.name = "nocache"
  · rw [if_neg hcache, if_pos hnocache, hnocache]
    rcases extent?_cases a with h | h | h <;> rw [h] <;> rfl
  · rw [if_neg hcache, if_neg hnocache]
    split <;> first | contradiction | rfl

theorem forRule?_eq (a : Annotation) : a.forRule? =
    (polarity? a).bind fun cache => if (scope? cache a).isSome then none else some cache := by
  rw [polarity?_bind, scope?_eq, scope?_eq, Annotation.forRule?]
  by_cases hcache : a.name = "cache"
  · rw [if_pos hcache, hcache]
    rcases extent?_cases a with h | h | h <;> rw [h] <;> rfl
  by_cases hnocache : a.name = "nocache"
  · rw [if_neg hcache, if_pos hnocache, hnocache]
    rcases extent?_cases a with h | h | h <;> rw [h] <;> rfl
  · rw [if_neg hcache, if_neg hnocache]
    split <;> first | contradiction | rfl

/-- What was said about the grammar before counts more than one more annotation. -/
theorem read_default : (read index r p a).default = p.default.or a.forGrammar? := by
  rw [forGrammar?_eq]
  cases hpolarity : polarity? a with
  | none => simp [read, hpolarity]
  | some cache =>
    cases hscope : scope? cache a with
    | none =>
      simp only [read, hpolarity, hscope, Option.bind_some, Option.or_none]
      split <;> rfl
    | some on => cases hdefault : p.default <;> simp [read, hpolarity, hscope, hdefault]

/-- What was said about a rule before counts more than one more annotation. -/
theorem read_rules (i : Nat) : (read index r p a).rules[i]? =
    if i = index then (p.rules[i]?).map (·.or a.forRule?) else p.rules[i]? := by
  rw [forRule?_eq]
  cases hpolarity : polarity? a with
  | none => simp [read, hpolarity]
  | some cache =>
    cases hscope : scope? cache a with
    | some on =>
      simp only [read, hpolarity, hscope, Option.bind_some, Option.isSome_some, if_true,
        Option.or_none, Option.map_id']
      split <;> simp
    | none =>
      simp only [read, hpolarity, hscope, Option.bind_some, Option.isSome_none, Bool.false_eq_true,
        if_false]
      by_cases hi : i = index
      · subst hi
        cases hrule : p.rules[i]? with
        | none => simpa using hrule
        | some said =>
          have hlt := (Array.getElem?_eq_some_iff.mp hrule).1
          cases said with
          | none => simp [hlt]
          | some said => simpa using hrule
      · rw [if_neg hi]
        split
        · rfl
        · exact Array.getElem?_setIfInBounds_ne (Ne.symm hi)

theorem foldl_read_default (as : List Annotation) (p : MemoPolicy) :
    (as.foldl (read index r) p).default = p.default.or (as.findSome? Annotation.forGrammar?) := by
  induction as generalizing p with
  | nil => simp
  | cons a as ih =>
    rw [List.foldl_cons, ih, read_default, Option.or_assoc, List.findSome?_cons]
    cases a.forGrammar? <;> rfl

theorem foldl_read_rules (as : List Annotation) (p : MemoPolicy) (i : Nat) :
    (as.foldl (read index r) p).rules[i]? =
      if i = index then (p.rules[i]?).map (·.or (as.findSome? Annotation.forRule?))
      else p.rules[i]? := by
  induction as generalizing p with
  | nil => simp
  | cons a as ih =>
    rw [List.foldl_cons, ih, read_rules]
    split
    · rw [Option.map_map, List.findSome?_cons]
      refine congrArg (Option.map · _) (funext fun said => ?_)
      rw [Function.comp_apply, Option.or_assoc]
      cases a.forRule? <;> rfl
    · rfl

/-- Read the annotations of rules, the first of which has an index. -/
def readRules (p : MemoPolicy) (rules : List Rule) (start : Nat) : MemoPolicy :=
  (rules.zipIdx start).foldl (fun p (r, index) => r.annotations.foldl (read index r) p) p

theorem readRules_default (rules : List Rule) (start : Nat) (p : MemoPolicy) :
    (p.readRules rules start).default = p.default.or (rules.findSome? Rule.grammarPolicy?) := by
  induction rules generalizing start p with
  | nil => simp [readRules]
  | cons r rules ih =>
    have hrest := ih (start + 1) (r.annotations.foldl (read start r) p)
    rw [readRules, List.zipIdx_cons, List.foldl_cons]
    rw [readRules] at hrest
    rw [hrest, foldl_read_default, Option.or_assoc, List.findSome?_cons, Rule.grammarPolicy?]
    cases r.annotations.findSome? Annotation.forGrammar? <;> rfl

theorem readRules_rules (rules : List Rule) (start : Nat) (p : MemoPolicy) (i : Nat) :
    (p.readRules rules start).rules[i]? =
      if start ≤ i then (p.rules[i]?).map (·.or ((rules[i - start]?).bind Rule.ownPolicy?))
      else p.rules[i]? := by
  induction rules generalizing start p with
  | nil => simp [readRules]
  | cons r rules ih =>
    have hrest := ih (start + 1) (r.annotations.foldl (read start r) p)
    rw [readRules, List.zipIdx_cons, List.foldl_cons]
    rw [readRules] at hrest
    rw [hrest, foldl_read_rules]
    rcases Nat.lt_trichotomy i start with hlt | rfl | hgt
    · rw [if_neg (by omega), if_neg (by omega), if_neg (by omega)]
    · rw [if_neg (by omega), if_pos rfl, if_pos (Nat.le_refl _), Nat.sub_self]
      rfl
    · obtain ⟨k, rfl⟩ := Nat.exists_eq_add_of_lt hgt
      rw [if_pos (by omega), if_neg (by omega), if_pos (by omega), Nat.add_assoc, Nat.add_comm k 1,
        ← Nat.add_assoc, Nat.add_sub_cancel_left, Nat.add_assoc, Nat.add_sub_cancel_left,
        Nat.add_comm 1 k]
      rfl

/-- The policy is what the rules say about the grammar, and what each rule says about itself. -/
theorem ofGrammar_default (g : Grammar) : (ofGrammar g).default = g.policy? := by
  change (readRules _ g.rules 0).default = _
  rw [readRules_default]
  rfl

theorem ofGrammar_rules (g : Grammar) (i : Nat) :
    (ofGrammar g).rules[i]? = (g.rules[i]?).map Rule.ownPolicy? := by
  change (readRules _ g.rules 0).rules[i]? = _
  rw [readRules_rules, if_pos (Nat.zero_le _), Nat.sub_zero, Array.getElem?_replicate]
  by_cases hi : i < g.rules.length
  · rw [if_pos hi, List.getElem?_eq_getElem hi]
    rfl
  · rw [if_neg hi, List.getElem?_eq_none (Nat.le_of_not_lt hi)]
    rfl

end MemoPolicy

/-! ## What a compilation decides -/

namespace Session

variable {s t : Session}

/-- It was decided for all rules, as the annotations and the options say, which are memoized. -/
structure Decided (s : Session) (options : Options) : Prop where
  rules : ∀ (index : Nat) (r : Rule), s.grammar.rules[index]? = some r →
    (s.facts.rules[index]?).any (·.memoize) = s.grammar.memoizes options r
  memoize : s.facts.memoize = s.facts.rules.any (·.memoize)

theorem keeps_conflicts (s : Session) (conflicts : List (String × Option Location)) :
    s.Keeps (conflicts.foldl (fun s (message, location) => s.warning message location) s) :=
  Keeps.foldl (fun t (c : String × Option Location) => keeps_warning t c.1 c.2) _ s

theorem decideMemoization_rules (s : Session) : s.decideMemoization.facts.rules =
    s.facts.rules.mapIdx fun i r =>
      match (MemoPolicy.ofGrammar s.grammar).rules[i]? with
      | some own => { r with memoize := own.getD (if s.options.forceCache then true
          else (MemoPolicy.ofGrammar s.grammar).default.getD s.options.cache) }
      | none => r := by
  have hkeeps := s.keeps_conflicts (MemoPolicy.ofGrammar s.grammar).conflicts
  rw [← hkeeps.facts, ← hkeeps.options]
  rfl

theorem decideMemoization_options (s : Session) : s.decideMemoization.options = s.options := by
  have hkeeps := s.keeps_conflicts (MemoPolicy.ofGrammar s.grammar).conflicts
  unfold decideMemoization
  dsimp only
  generalize (MemoPolicy.ofGrammar s.grammar).conflicts.foldl _ s = t at hkeeps ⊢
  exact (hkeeps.trans (.ite (keeps_info t _ _) (.ite (keeps_info t _ _) (.refl t)))).options

theorem decided_decideMemoization (hsize : s.facts.rules.size = s.grammar.rules.length) :
    s.decideMemoization.Decided s.options := by
  obtain ⟨-, -, hgrammar, -⟩ := Accepted.decideMemoization_eq s
  refine ⟨fun index r hr => ?_, rfl⟩
  rw [hgrammar] at hr ⊢
  have hlt : index < s.facts.rules.size := hsize ▸ (List.getElem?_eq_some_iff.mp hr).1
  rw [decideMemoization_rules, Array.getElem?_mapIdx, Array.getElem?_eq_getElem hlt,
    MemoPolicy.ofGrammar_rules, hr]
  simp only [Option.map_some, Option.any_some, Grammar.memoizes, MemoPolicy.ofGrammar_default]
  cases s.options.forceCache <;> rfl

/-! ## The options stay the same -/

theorem reduceProxy_options (s : Session) (index : Nat) :
    (s.reduceProxy index).2.options = s.options := by
  unfold reduceProxy
  split
  · next p r hp hr =>
    split
    · rfl
    · next target _ =>
      dsimp only
      generalize hinfo : s.info _ _ = t
      have ht : s.Keeps t := hinfo ▸ keeps_info s _ _
      have hredirected := redirectReferences_keeps t r.name p.target
      rw [← ht.options]
      cases p.label with
      | none => exact hredirected.options
      | some label =>
        refine Eq.trans ?_ hredirected.options
        dsimp only
        unfold moveLabel
        split <;> rfl
  · rfl

theorem elideProxies_options (s : Session) : s.elideProxies.options = s.options := by
  obtain ⟨t, hkeeps, helided⟩ := s.elideProxies_eq
  have hreduced : s.reduceProxies.2.options = s.options :=
    reduceProxies_induct (P := fun _ t => t.options = s.options) rfl
      fun _ t index ht => (t.reduceProxy_options index).trans ht
  rw [helided, ← hreduced, ← hkeeps.options]
  rfl

theorem dropUnusedRules_options (s : Session) : s.dropUnusedRules.options = s.options := by
  obtain ⟨t, hkeeps, ⟨-, hdropped⟩ | hdropped⟩ := s.dropUnusedRules_cases
  · rw [hdropped, hkeeps.options]
  · rw [hdropped, ← hkeeps.options]
    rfl

theorem linkGrammar_options {v : Verdict} (h : s.linkGrammar = (v, t)) : t.options = s.options := by
  unfold linkGrammar at h
  split at h
  · cases h
    rfl
  · cases h
    exact (s.keeps_reportStarters _).options

theorem generateProgram_options {v : Verdict} (h : s.generateProgram = (v, t)) :
    t.options = s.options := by
  unfold generateProgram at h
  split at h
  · cases h
    rfl
  · next code _ =>
    cases h
    exact (Accepted.keeps_defects s code.pools.defects).options

theorem emitSource_options {v : Verdict} (h : s.emitSource = (v, t)) : t.options = s.options := by
  unfold emitSource at h
  split at h
  · cases h
    rfl
  · split at h
    · cases h
      rfl
    · split at h <;> cases h <;> rfl

end Session

/-- No pass changes the options. -/
theorem options_of_pass {i : Nat} {pass : Pass} (hpass : Pipeline.standard.passes[i]? = some pass)
    {s t : Session} {v : Verdict} (h : pass.run s = (v, t)) : t.options = s.options := by
  have hfunction {name : String} (f : Session → Session) (hf : ∀ s, (f s).options = s.options)
      (h : (Pass.ofFunction name f).run s = (v, t)) : t.options = s.options := by
    obtain rfl := congrArg Prod.snd h
    exact hf s
  match i with
  | 0 => cases hpass; exact Session.linkGrammar_options h
  | 1 => cases hpass; exact hfunction Session.decideStatistics (fun _ => rfl) h
  | 2 => cases hpass; exact hfunction Session.describeNodes (fun _ => rfl) h
  | 3 => cases hpass; exact hfunction _ (fun s => s.keeps_checkDuplicateRules.options) h
  | 4 => cases hpass; exact hfunction _ (fun s => s.keeps_checkMissingRules.options) h
  | 5 => cases hpass; exact hfunction _ Session.dropUnusedRules_options h
  | 6 => cases hpass; exact hfunction Session.analyzeConsumption (fun _ => rfl) h
  | 7 => cases hpass; exact hfunction _ (fun s => s.keeps_checkLeftRecursion.options) h
  | 8 => cases hpass; exact hfunction _ (fun s => s.keeps_checkEndlessLoops.options) h
  | 9 => cases hpass; exact hfunction _ (fun s => s.keeps_checkLabels.options) h
  | 10 => cases hpass; exact hfunction _ Session.elideProxies_options h
  | 11 => cases hpass; exact hfunction Session.nameElements (fun _ => rfl) h
  | 12 => cases hpass; exact hfunction Session.analyzeConsumption (fun _ => rfl) h
  | 13 => cases hpass; exact hfunction _ Session.decideMemoization_options h
  | 14 => cases hpass; exact Session.generateProgram_options h
  | 15 => cases hpass; exact Session.emitSource_options h
  | n + 16 => cases hpass

/-! ## What is memoized in the end -/

theorem Session.Decided.congr {s t : Session} {options : Options} (h : s.Decided options)
    (hgrammar : t.grammar = s.grammar) (hfacts : t.facts = s.facts) : t.Decided options := by
  constructor
  · rw [hgrammar, hfacts]
    exact h.rules
  · rw [hfacts]
    exact h.memoize

/-- What holds of a compilation after so many passes. The fourteenth decides what is memoized. -/
structure Deciding (g : Grammar) (options : Options) (n : Nat) (s : Session) : Prop where
  upkeep : Upkeep g options n s
  unchanged : s.options = options
  decided : 14 ≤ n → s.Decided options

namespace Deciding

variable {g : Grammar} {options : Options}

theorem saidOnly : SaidOnly (Deciding g options) := by
  intro n s t hgrammar hfacts hoptions h
  exact ⟨Upkeep.saidOnly n s t hgrammar hfacts hoptions h.upkeep, hoptions.trans h.unchanged,
    fun hn => (h.decided hn).congr hgrammar hfacts⟩

/-- Each pass of a compilation does what it has to do. -/
theorem advances (htrees : g.HasTrees) (i : Nat) (pass : Pass)
    (hpass : Pipeline.standard.passes[i]? = some pass) :
    Advances (Deciding g options) i pass := by
  intro s v t h hrun hv
  refine ⟨Upkeep.advances htrees i pass hpass s v t h.upkeep hrun hv,
    (options_of_pass hpass hrun).trans h.unchanged, fun hn => ?_⟩
  match i with
  | 13 =>
    cases hpass
    obtain rfl := congrArg Prod.snd hrun
    rw [← h.unchanged]
    exact Session.decided_decideMemoization (h.upkeep.linked nofun).sized.rules
  | 14 =>
    cases hpass
    obtain ⟨hgrammar, hfacts⟩ := Accepted.generateProgram_keeps hrun
    exact (h.decided (Nat.le_refl _)).congr hgrammar hfacts
  | 15 =>
    cases hpass
    obtain ⟨hgrammar, hfacts, -⟩ := Accepted.emitSource_keeps hrun
    exact (h.decided (by omega)).congr hgrammar hfacts
  | n + 16 => cases hpass

/-- A compilation that goes well has decided what is memoized. -/
theorem of_compile {source : GrammarSource} {listeners : Nat} {compiled : Compiled} {s : Session}
    (h : compile (.ofSource source) options listeners = (.ok compiled, s)) :
    Deciding (.ofSource source) options Pipeline.standard.passes.length s := by
  rw [← Nat.zero_add Pipeline.standard.passes.length]
  refine (Pipeline.steps_induct saidOnly (fun i pass hpass => ?_)
    ⟨Upkeep.begin (.ofSource source) options listeners, rfl, nofun⟩).2 s (run_of_compile h)
  rw [Nat.zero_add]
  exact advances (Grammar.ofSource_hasTrees source) i pass hpass

end Deciding

/-- The policy of the rules that are kept is the one of all rules, if the first rule that says
anything about the whole grammar is kept. -/
theorem Grammar.Selects.policy?_eq {g g' : Grammar} {kept : List Nat} (h : g.Selects g' kept)
    (hfirst : ∀ first, g.rules.findIdx? (·.grammarPolicy?.isSome) = some first → first ∈ kept) :
    g'.policy? = g.policy? := by
  have hpolicy : g'.policy? =
      kept.findSome? fun i => (g.rules[i]?).bind Rule.grammarPolicy? := by
    have hheaders := congrArg (List.findSome? (fun header : Option (String × List Annotation ×
      Option Location) => header.bind (·.2.1.findSome? Annotation.forGrammar?))) h.rules
    rw [List.findSome?_map, List.findSome?_map] at hheaders
    refine hheaders.trans (congrArg (List.findSome? · kept) (funext fun i => ?_))
    rw [Function.comp_apply, Option.bind_map]
    rfl
  rw [hpolicy]
  cases hsome : g.policy? with
  | none =>
    refine List.findSome?_eq_none_iff.mpr fun i _ => Option.bind_eq_none_iff.mpr fun r hr => ?_
    exact List.findSome?_eq_none_iff.mp hsome r (List.mem_of_getElem? hr)
  | some on =>
    obtain ⟨before, r, behind, hrules, hr, hbefore⟩ := List.findSome?_eq_some_iff.mp hsome
    have hindex : g.rules.findIdx? (·.grammarPolicy?.isSome) = some before.length := by
      refine List.findIdx?_eq_some_iff_getElem.mpr ⟨by simp [hrules], ?_, fun j hj => ?_⟩
      · simp [hrules, hr]
      · simp [hrules, List.getElem_append_left hj, hbefore _ (List.getElem_mem hj)]
    obtain ⟨left, right, rfl⟩ := List.append_of_mem (hfirst _ hindex)
    refine List.findSome?_eq_some_iff.mpr ⟨left, before.length, right, rfl, ?_, fun i hi => ?_⟩
    · rw [hrules, List.getElem?_append_right (Nat.le_refl _), Nat.sub_self]
      exact hr
    · have hlt : i < before.length :=
        (List.pairwise_append.mp h.ordered).2.2 i hi _ List.mem_cons_self
      rw [hrules, List.getElem?_append_left hlt, List.getElem?_eq_getElem hlt]
      exact hbefore _ (List.getElem_mem hlt)

/-- The rules of a program, which are those of a grammar, are memoized as a policy says. -/
def Program.Follows (P : Program) (g : Grammar) (memoizes : PegMachine.Rule → Bool) : Prop :=
  P.rules.size = g.rules.length ∧ ∀ (index : Nat) (r : PegMachine.Rule),
    g.rules[index]? = some r →
      ∃ R, P.rules[index]? = some R ∧ R.name = r.name ∧ R.memoize = memoizes r

theorem Session.Decided.follows_program {s : Session} {options : Options} (h : s.Decided options)
    {code : Generated} (hcode : s.facts.generate s.grammar = .ok code) (trace : Bool) :
    (code.program s.grammar s.facts trace).Follows s.grammar (s.grammar.memoizes options) := by
  have hlength := Generate.length_of_rules (Facts.generate_eq_ok hcode)
  refine ⟨by simp [Generated.program, hlength], fun index r hr => ?_⟩
  obtain ⟨hlt, rfl⟩ := List.getElem?_eq_some_iff.mp hr
  have hlt' : index < code.code.length := hlength ▸ hlt
  refine ⟨⟨s.grammar.rules[index].name, (s.facts.rules[index]?).any (·.memoize),
    code.code[index].assemble.toArray⟩, ?_, rfl, h.rules index _ hr⟩
  simp [Generated.program, hlt, hlt']

/-- A program memoizes if one of its rules is memoized. -/
theorem Session.Decided.memoize_program {s : Session} {options : Options} (h : s.Decided options)
    (hsize : s.facts.rules.size = s.grammar.rules.length) {code : Generated}
    (hcode : s.facts.generate s.grammar = .ok code) (trace : Bool) :
    (code.program s.grammar s.facts trace).memoize = true ↔
      ∃ R ∈ (code.program s.grammar s.facts trace).rules, R.memoize = true := by
  obtain ⟨hlength, hfollows⟩ := h.follows_program hcode trace
  change s.facts.memoize = true ↔ _
  rw [h.memoize, Array.any_eq_true]
  constructor
  · rintro ⟨index, hlt, hmemoize⟩
    have hrule : index < s.grammar.rules.length := hsize ▸ hlt
    obtain ⟨R, hR, -, hsame⟩ := hfollows index _ (List.getElem?_eq_getElem hrule)
    refine ⟨R, Array.mem_of_getElem? hR, ?_⟩
    rw [hsame, ← h.rules index _ (List.getElem?_eq_getElem hrule), Array.getElem?_eq_getElem hlt]
    exact hmemoize
  · rintro ⟨R, hmem, hmemoize⟩
    obtain ⟨index, hlt, rfl⟩ := Array.mem_iff_getElem.mp hmem
    have hrule : index < s.grammar.rules.length := hlength ▸ hlt
    obtain ⟨R, hR, -, hsame⟩ := hfollows index _ (List.getElem?_eq_getElem hrule)
    rw [Array.getElem?_eq_getElem hlt] at hR
    obtain rfl := Option.some.inj hR
    have hfacts : index < s.facts.rules.size := hsize ▸ hrule
    rw [hsame, ← h.rules index _ (List.getElem?_eq_getElem hrule),
      Array.getElem?_eq_getElem hfacts] at hmemoize
    exact ⟨index, hfacts, hmemoize⟩

/-- The rules of the program are memoized as their own annotations say, else as forced, else as the
first annotation for the grammar says that one of these rules has, else as the options say. That is
what all rules of the grammar say, those that were dropped among them, if the first of them that
says anything about the whole grammar was kept. -/
theorem compile_memoizes (source : GrammarSource) (options : Options) (listeners : Nat)
    (compiled : Compiled) (s : Session)
    (h : compile (.ofSource source) options listeners = (.ok compiled, s)) :
    let g := Grammar.ofSource source
    ∃ P kept, s.program = some P ∧ g.Selects s.grammar kept ∧
      P.Follows s.grammar (s.grammar.memoizes options) ∧
      (P.memoize = true ↔ ∃ R ∈ P.rules, R.memoize = true) ∧
      ((∀ first, g.rules.findIdx? (·.grammarPolicy?.isSome) = some first → first ∈ kept) →
        P.Follows s.grammar (g.memoizes options)) := by
  intro g
  obtain ⟨p, c, x, haccepted⟩ := compile_eq_ok h
  obtain ⟨code, trace, hcode, hprogram⟩ := haccepted.program
  have hdeciding := Deciding.of_compile h
  have hdecided := hdeciding.decided (by decide)
  have hsize := (hdeciding.upkeep.linked nofun).sized.rules
  obtain ⟨kept, hselects, -⟩ := hdeciding.upkeep.selects nofun
  have hfollows : (code.program s.grammar s.facts trace).Follows s.grammar
      (s.grammar.memoizes options) := hdecided.follows_program hcode trace
  refine ⟨_, kept, hprogram, hselects, hfollows,
    hdecided.memoize_program hsize hcode trace, fun hfirst => ?_⟩
  · have hsame : s.grammar.memoizes options = g.memoizes options := by
      funext r
      rw [Grammar.memoizes, hselects.policy?_eq hfirst]
      rfl
    rwa [← hsame]

/-- A grammar in which the policy of the first rule counts, another rule has one of its own, and
that of a proxy would come too late. -/
def annotated : GrammarSource where
  rules := [
    ⟨"start", .of (.sequence [.of (.ruleRef "alias"), .of (.ruleRef "letter")]),
      [⟨"nocache", [.keyword "all"], none⟩], none⟩,
    ⟨"alias", .of (.ruleRef "letter"), [⟨"cache", [.keyword "all"], none⟩], none⟩,
    ⟨"letter", .of .any, [⟨"cache", [], none⟩, ⟨"nocache", [], none⟩], none⟩]

theorem annotated_memoizes : ∃ compiled s P, compile (.ofSource annotated) { cache := true } 0 =
      (.ok compiled, s) ∧ s.program = some P ∧
    P.Follows s.grammar (s.grammar.memoizes { cache := true }) ∧
    s.grammar.rules.map (fun r => (r.name, s.grammar.memoizes { cache := true } r)) =
      [("start", false), ("letter", true)] := by
  have hends : (compile (.ofSource annotated) { cache := true } 0).1.isOk = true ∧
      (compile (.ofSource annotated) { cache := true } 0).2.grammar.rules.map (fun r =>
        (r.name, (compile (.ofSource annotated) { cache := true } 0).2.grammar.memoizes
          { cache := true } r)) = [("start", false), ("letter", true)] := by
    decide +kernel
  obtain ⟨compiled, hcompiled⟩ := exists_compiled hends.1
  obtain ⟨P, -, hprogram, -, hfollows, -⟩ := compile_memoizes annotated _ 0 compiled _ hcompiled
  exact ⟨compiled, _, P, hcompiled, hprogram, hfollows, hends.2⟩

end PegMachine
