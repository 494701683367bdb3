import PegMachine.Analysis.Descriptions
import PegMachine.Proofs.Removal
import PegMachine.Session.Preparation

/-!
# Linking again

Linking overwrites whatever follows from the structure of a grammar, so it does not matter what was
known before. The tables have an entry for each node and each rule, and the rule of the first of the
names that a parse may start from is the preferred one.
-/

namespace PegMachine

/-- What is known about a rule from the structure of its grammar. -/
def RuleFacts.structural (r : RuleFacts) : List String × Starter := (r.invokers, r.starter)

namespace Facts

variable {f f' f'' : Facts} {g : Grammar}

/-! ## What follows from structure -/

/-- The tables that follow from the structure of a grammar are the same. -/
structure SameStructure (f f' : Facts) : Prop where
  depth : f.depth = f'.depth
  parent : f.parent = f'.parent
  ruleOf : f.ruleOf = f'.ruleOf
  targets : f.targets = f'.targets
  rules : f.rules.map RuleFacts.structural = f'.rules.map RuleFacts.structural

namespace SameStructure

theorem refl (f : Facts) : f.SameStructure f := ⟨rfl, rfl, rfl, rfl, rfl⟩

theorem symm (h : f.SameStructure f') : f'.SameStructure f :=
  ⟨h.depth.symm, h.parent.symm, h.ruleOf.symm, h.targets.symm, h.rules.symm⟩

theorem trans (h : f.SameStructure f') (h' : f'.SameStructure f'') : f.SameStructure f'' :=
  ⟨h.depth.trans h'.depth, h.parent.trans h'.parent, h.ruleOf.trans h'.ruleOf,
    h.targets.trans h'.targets, h.rules.trans h'.rules⟩

theorem size_eq (h : f.SameStructure f') : f.rules.size = f'.rules.size := by
  simpa using congrArg Array.size h.rules

theorem rule_eq (h : f.SameStructure f') (i : Nat) :
    (f.rules[i]?).map RuleFacts.structural = (f'.rules[i]?).map RuleFacts.structural := by
  rw [← Array.getElem?_map, h.rules, Array.getElem?_map]

/-- A change to what is known about a rule that only looks at its structure is the same change. -/
theorem modify (h : f.SameStructure f') (change : RuleFacts → RuleFacts)
    (hchange : ∀ r r', r.structural = r'.structural →
      (change r).structural = (change r').structural) (i : Nat) :
    (f.rules.modify i change).map RuleFacts.structural =
      (f'.rules.modify i change).map RuleFacts.structural := by
  refine Array.ext_getElem? fun j => ?_
  rw [Array.getElem?_map, Array.getElem?_map, Array.getElem?_modify, Array.getElem?_modify]
  have hj := h.rule_eq j
  by_cases hij : i = j
  · rw [if_pos hij, if_pos hij]
    cases hr : f.rules[j]? with
    | none =>
      rw [hr] at hj
      rw [Option.map_eq_none_iff.mp hj.symm]
    | some r =>
      rw [hr] at hj
      obtain ⟨r', hr', hsame⟩ := Option.map_eq_some_iff.mp hj.symm
      rw [hr']
      exact congrArg some (hchange r r' hsame.symm)
  · rw [if_neg hij, if_neg hij]
    exact hj

theorem enterNode (h : f.SameStructure f') (rule : Nat) (id : NodeId) (parent : Parent) :
    (enterNode rule id parent f).SameStructure (Facts.enterNode rule id parent f') := by
  have hdepth : f.depthUnder parent = f'.depthUnder parent := by
    cases parent with
    | rule index => rfl
    | node p => simp only [depthUnder, h.depth]
  simp only [Facts.enterNode, hdepth, h.depth, h.parent, h.ruleOf]
  exact ⟨rfl, rfl, rfl, h.targets, h.rules⟩

theorem enterReference (h : f.SameStructure f') (invoker : String) (id : NodeId) :
    (enterReference g invoker id f).SameStructure (Facts.enterReference g invoker id f') := by
  unfold Facts.enterReference
  split
  · split
    · next target _ =>
      refine ⟨h.depth, h.parent, h.ruleOf,
        congrArg (·.setIfInBounds id (some target)) h.targets, ?_⟩
      refine h.modify (fun r => { r with invokers := insertName invoker r.invokers })
        (fun r r' hsame => ?_) target
      simp only [RuleFacts.structural, Prod.mk.injEq] at hsame ⊢
      exact ⟨congrArg _ hsame.1, hsame.2⟩
    · exact h
  · exact h

theorem mark (h : f.SameStructure f') (index : Nat) (starter : Starter) :
    SameStructure { f with rules := f.rules.modify index fun r => { r with starter } }
      { f' with rules := f'.rules.modify index fun r => { r with starter } } := by
  refine ⟨h.depth, h.parent, h.ruleOf, h.targets, ?_⟩
  refine h.modify (fun r => { r with starter }) (fun r r' hsame => ?_) index
  simp only [RuleFacts.structural, Prod.mk.injEq] at hsame ⊢
  exact ⟨hsame.1, trivial⟩

end SameStructure

/-- Whatever was known before, linking finds the same structure. -/
theorem sameStructure_link (f f' : Facts) (g : Grammar) (starters : List String) :
    (f.link g starters).SameStructure (f'.link g starters) := by
  have hunlinked : (f.unlinked g starters).SameStructure (f'.unlinked g starters) := by
    refine ⟨rfl, rfl, rfl, rfl, Array.ext_getElem? fun i => ?_⟩
    simp only [unlinked, Array.getElem?_map, Array.getElem?_ofFn]
    split <;> rfl
  have hrules : (linkRules g (f.unlinked g starters)).SameStructure
      (linkRules g (f'.unlinked g starters)) :=
    linkRules_rel (fun _ _ rule name id parent h =>
      (h.enterNode rule id parent).enterReference name id) _ _ hunlinked
  exact markStarters_rel (fun _ _ index starter h => h.mark index starter) 0 starters _ _ hrules

/-! ## Sizes -/

/-- The tables have an entry for each node, and there is one for each rule. -/
structure Sized (f : Facts) (g : Grammar) : Prop where
  depth : f.depth.size = g.nodes.size
  parent : f.parent.size = g.nodes.size
  ruleOf : f.ruleOf.size = g.nodes.size
  targets : f.targets.size = g.nodes.size
  descriptions : f.descriptions.size = g.nodes.size
  consumption : f.consumption.size = g.nodes.size
  autoLabels : f.autoLabels.size = g.nodes.size
  rules : f.rules.size = g.rules.length

theorem size_resize {α : Type} (table : Array (Option α)) (n : Nat) :
    (resize table n).size = n := by
  simp only [resize, Array.size_append, Array.take_eq_extract, Array.size_extract,
    Array.size_replicate]
  omega

theorem sized_unlinked (f : Facts) (g : Grammar) (starters : List String) :
    (f.unlinked g starters).Sized g where
  depth := Array.size_replicate
  parent := Array.size_replicate
  ruleOf := Array.size_replicate
  targets := Array.size_replicate
  descriptions := size_resize _ _
  consumption := size_resize _ _
  autoLabels := size_resize _ _
  rules := Array.size_ofFn

namespace Sized

theorem enterNode (h : f.Sized g) (rule : Nat) (id : NodeId) (parent : Parent) :
    (enterNode rule id parent f).Sized g :=
  { h with
    depth := Array.size_setIfInBounds.trans h.depth
    parent := Array.size_setIfInBounds.trans h.parent
    ruleOf := Array.size_setIfInBounds.trans h.ruleOf }

theorem enterReference (h : f.Sized g) (invoker : String) (id : NodeId) :
    (enterReference g invoker id f).Sized g := by
  unfold Facts.enterReference
  split
  · split
    · exact
        { h with
          targets := Array.size_setIfInBounds.trans h.targets
          rules := Array.size_modify.trans h.rules }
    · exact h
  · exact h

end Sized

/-- Linking makes the tables as large as they have to be. -/
theorem sized_link (f : Facts) (g : Grammar) (starters : List String) :
    (f.link g starters).Sized g := by
  have hrules : (linkRules g (f.unlinked g starters)).Sized g :=
    linkRules_rel (R := fun f _ => f.Sized g)
      (fun _ _ rule name id parent h => (h.enterNode rule id parent).enterReference name id) _ f
      (sized_unlinked f g starters)
  exact markStarters_rel (R := fun f _ => f.Sized g)
    (fun _ _ _ _ h => { h with rules := Array.size_modify.trans h.rules }) 0 starters _ f hrules

/-! ## The preferred start rule -/

/-- Whether a parse may start from a rule, if there is such a rule. -/
def starter? (f : Facts) (index : Nat) : Option Starter := (f.rules[index]?).map (·.starter)

theorem starter?_mark (index : Nat) (starter : Starter) (i : Nat) :
    starter? { f with rules := f.rules.modify index fun r => { r with starter } } i =
      if i = index then (f.starter? i).map fun _ => starter else f.starter? i := by
  simp only [starter?, Array.getElem?_modify]
  by_cases hi : i = index
  · rw [if_pos hi, if_pos hi.symm, Option.map_map, Option.map_map]
    rfl
  · rw [if_neg hi, if_neg fun h => hi h.symm]

/-- No rule is marked before start rules are. -/
theorem starter?_linkRules (starters : List String) (i : Nat) :
    ∀ mark ∈ (linkRules g (f.unlinked g starters)).starter? i, mark = .no := by
  have hunlinked (i : Nat) : ∀ mark ∈ (f.unlinked g starters).starter? i, mark = .no := by
    intro mark hmark
    simp only [starter?, unlinked, Array.getElem?_ofFn] at hmark
    split at hmark
    · cases hmark
      rfl
    · cases hmark
  refine linkRules_rel (R := fun f _ => ∀ i, ∀ mark ∈ f.starter? i, mark = .no)
    (fun f _ rule name id parent h i => ?_) _ f hunlinked i
  have hentered : (enterReference g name id (enterNode rule id parent f)).starter? i =
      f.starter? i := by
    unfold enterReference
    split
    · split
      · simp only [starter?, Array.getElem?_modify]
        split
        · next hi => simp [enterNode, Function.comp_def]
        · rfl
      · rfl
    · rfl
  rw [hentered]
  exact h i

/-- Marking rules that do not come first prefers none of them. -/
theorem starter?_markStarters {place : Nat} (hplace : place ≠ 0) {names : List String} {i : Nat}
    (h : f.starter? i ≠ some .default) :
    (markStarters g place names f).starter? i ≠ some .default := by
  induction names generalizing place f with
  | nil => exact h
  | cons name rest ih =>
    rw [markStarters]
    refine ih (Nat.succ_ne_zero place) ?_
    split
    · rw [starter?_mark, if_neg hplace]
      split
      · cases f.starter? i with
        | none => rintro ⟨⟩
        | some starter => rintro ⟨⟩
      · exact h
    · exact h

/-- Marking other rules leaves the mark of a rule as it is. -/
theorem starter?_markStarters_of_ne {place : Nat} {names : List String} {i : Nat}
    (h : ∀ name ∈ names, g.ruleIndex? name ≠ some i) :
    (markStarters g place names f).starter? i = f.starter? i := by
  induction names generalizing place f with
  | nil => rfl
  | cons name rest ih =>
    rw [markStarters, ih fun name hname => h name (List.mem_cons_of_mem _ hname)]
    split
    · next index hindex =>
      have hne : i ≠ index := fun heq => h name List.mem_cons_self (heq ▸ hindex)
      rw [starter?_mark, if_neg hne]
    · rfl

theorem starts_iff {i : Nat} : f.Starts i ↔ ∃ mark ∈ f.starter? i, mark.isStarter = true := by
  rw [Starts, Option.any_eq_true]
  constructor
  · rintro ⟨r, hr, hstarter⟩
    exact ⟨r.starter, Option.mem_map.mpr ⟨r, hr, rfl⟩, hstarter⟩
  · rintro ⟨mark, hmark, hstarter⟩
    obtain ⟨r, hr, rfl⟩ := Option.mem_map.mp hmark
    exact ⟨r, hr, hstarter⟩

/-- A parse may only start from rules that were named. -/
theorem exists_of_starts_link {starters : List String} {i : Nat}
    (h : (f.link g starters).Starts i) : ∃ name ∈ starters, g.ruleIndex? name = some i := by
  by_contra hnone
  have hmark : (f.link g starters).starter? i =
      (linkRules g (f.unlinked g starters)).starter? i :=
    starter?_markStarters_of_ne fun name hname hindex => hnone ⟨name, hname, hindex⟩
  obtain ⟨mark, hmem, hstarter⟩ := starts_iff.mp h
  rw [hmark] at hmem
  rw [starter?_linkRules starters i mark hmem] at hstarter
  cases hstarter

theorem ruleIndex?_inj {name name' : String} {i : Nat} (h : g.ruleIndex? name = some i)
    (h' : g.ruleIndex? name' = some i) : name = name' := by
  obtain ⟨r, hr, rfl⟩ := Grammar.name_of_ruleIndex? h
  obtain ⟨r', hr', rfl⟩ := Grammar.name_of_ruleIndex? h'
  rw [hr] at hr'
  cases hr'
  rfl

/-- Exactly the rule of the first name is the preferred one. -/
theorem starter?_link {first : String} {rest : List String} {index : Nat}
    (hdistinct : (first :: rest).Nodup) (hindex : g.ruleIndex? first = some index) (i : Nat) :
    (f.link g (first :: rest)).starter? i = some .default ↔ i = index := by
  obtain ⟨hfirst, -⟩ := List.nodup_cons.mp hdistinct
  have hlinked := starter?_linkRules (f := f) (g := g) (first :: rest)
  have hsize : index < (linkRules g (f.unlinked g (first :: rest))).rules.size := by
    rw [linksOn_linkRules.1.rules, (sized_unlinked f g _).rules]
    exact ruleIndex?_lt hindex
  have hlink : f.link g (first :: rest) = markStarters g 0 (first :: rest)
      (linkRules g (f.unlinked g (first :: rest))) := rfl
  generalize linkRules g (f.unlinked g (first :: rest)) = f' at hlinked hsize hlink
  rw [markStarters, hindex] at hlink
  rw [hlink]
  constructor
  · intro hdefault
    by_contra hne
    refine starter?_markStarters Nat.one_ne_zero ?_ hdefault
    rw [starter?_mark, if_neg hne]
    intro hmark
    cases hlinked i .default hmark
  · rintro rfl
    rw [starter?_markStarters_of_ne, starter?_mark, if_pos rfl]
    · rw [starter?, Array.getElem?_eq_getElem hsize]
      rfl
    · intro name hname hsame
      exact hfirst (ruleIndex?_inj hindex hsame ▸ hname)

theorem SameStructure.starter? (h : f.SameStructure f') (i : Nat) :
    f.starter? i = f'.starter? i := by
  have hi := congrArg (Option.map Prod.snd) (h.rule_eq i)
  rwa [Option.map_map, Option.map_map] at hi

theorem SameStructure.starts (h : f.SameStructure f') {i : Nat} (hstarts : f.Starts i) :
    f'.Starts i := by
  obtain ⟨mark, hmark, hstarter⟩ := starts_iff.mp hstarts
  exact starts_iff.mpr ⟨mark, h.starter? i ▸ hmark, hstarter⟩

end Facts

/-! ## Sessions -/

namespace Session

variable {s t : Session}

/-- The tables of a session are those of its grammar: they have an entry for each node and rule,
what follows from structure is as if the grammar had just been linked, and the rules that a parse
may start from exist, are different ones, and the first of them is the preferred one. -/
structure UpToDate (s : Session) : Prop where
  sized : s.facts.Sized s.grammar
  structural : s.facts.SameStructure (Facts.link {} s.grammar s.facts.starters)
  resolved : ∀ name ∈ s.facts.starters, (s.grammar.ruleIndex? name).isSome
  distinct : s.facts.starters.Nodup
  preferred : ∃ first index, s.facts.starters.head? = some first ∧
    s.grammar.ruleIndex? first = some index ∧
    ∀ i, s.facts.starter? i = some .default ↔ i = index

/-- Linking brings the tables up to date. -/
theorem upToDate_link {f : Facts} {g : Grammar} {starters : List String}
    (hfacts : s.facts = f.link g starters) (hgrammar : s.grammar = g)
    (hsome : starters ≠ []) (hdistinct : starters.Nodup)
    (hresolved : ∀ name ∈ starters, (g.ruleIndex? name).isSome) : s.UpToDate := by
  have hstarters : s.facts.starters = starters := by rw [hfacts, Facts.starters_link]
  subst hgrammar
  refine ⟨?_, ?_, ?_, ?_, ?_⟩
  · rw [hfacts]
    exact Facts.sized_link f s.grammar starters
  · rw [hstarters, hfacts]
    exact Facts.sameStructure_link f {} s.grammar starters
  · rwa [hstarters]
  · rwa [hstarters]
  · cases starters with
    | nil => exact absurd rfl hsome
    | cons first rest =>
      obtain ⟨index, hindex⟩ := Option.isSome_iff_exists.mp (hresolved first List.mem_cons_self)
      refine ⟨first, index, by rw [hstarters, List.head?_cons], hindex, fun i => ?_⟩
      rw [hfacts]
      exact Facts.starter?_link hdistinct hindex i

namespace UpToDate

/-- The tables are still up to date after changes that structure does not matter for. -/
theorem congr (h : s.UpToDate) (hgrammar : t.grammar = s.grammar)
    (hsized : t.facts.Sized t.grammar) (hsame : t.facts.SameStructure s.facts)
    (hstarters : t.facts.starters = s.facts.starters) : t.UpToDate := by
  obtain ⟨first, index, hfirst, hindex, hpreferred⟩ := h.preferred
  refine ⟨hsized, ?_, ?_, ?_, first, index, ?_, ?_, fun i => ?_⟩
  · rw [hgrammar, hstarters]
    exact hsame.trans h.structural
  · rw [hgrammar, hstarters]
    exact h.resolved
  · rw [hstarters]
    exact h.distinct
  · rw [hstarters, hfirst]
  · rw [hgrammar, hindex]
  · rw [hsame.starter?, hpreferred]

theorem of_same (h : s.UpToDate) (hgrammar : t.grammar = s.grammar) (hfacts : t.facts = s.facts) :
    t.UpToDate := by
  refine h.congr hgrammar ?_ ?_ (by rw [hfacts])
  · rw [hgrammar, hfacts]
    exact h.sized
  · rw [hfacts]
    exact .refl _

theorem keeps (h : s.UpToDate) (hkeeps : s.Keeps t) : t.UpToDate :=
  h.of_same hkeeps.grammar hkeeps.facts

/-- Tables that are up to date are linked. -/
theorem links (h : s.UpToDate) : s.facts.Links s.grammar := by
  have hfresh := Facts.links_link {} s.grammar s.facts.starters
  refine hfresh.congr h.structural.size_eq h.structural.targets ?_ fun i => h.structural.symm.starts
  rw [Facts.starters_link]

theorem starters_ne_nil (h : s.UpToDate) : s.facts.starters ≠ [] := by
  obtain ⟨first, -, hfirst, -⟩ := h.preferred
  intro hnil
  rw [hnil] at hfirst
  cases hfirst

/-- A parse may only start from rules that were named. -/
theorem exists_of_starts (h : s.UpToDate) {i : Nat} (hstarts : s.facts.Starts i) :
    ∃ name ∈ s.facts.starters, s.grammar.ruleIndex? name = some i :=
  Facts.exists_of_starts_link (h.structural.starts hstarts)

end UpToDate

end Session

end PegMachine
