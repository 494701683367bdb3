import PegMachine.Proofs.Upkeep

/-!
# References resolve

No rule is missing where the check for missing rules found nothing. Dropping unused rules and taking
out proxies leave it so: a rule that something refers to is kept, and where a reference is
redirected there is a rule to go to.
-/

namespace PegMachine

namespace Grammar

variable {g g' : Grammar} {index : Nat} {label : String}

/-- Every reference that belongs to a rule refers to a rule. -/
def Resolved (g : Grammar) : Prop :=
  ∀ x name, g.Owned x → g.shape x = .ruleRef name → (g.ruleIndex? name).isSome

/-- What belongs to a rule after a label was put on a root is the new root or belonged to a rule
before. -/
theorem owned_labelRoot (h : g.labelRoot index label = some g') {x : NodeId} (hx : g'.Owned x)
    {name : String} (hshape : g'.shape x = .ruleRef name) :
    g.Owned x ∧ g.shape x = .ruleRef name := by
  obtain ⟨r', hr', hbelow⟩ := hx
  obtain ⟨r, hr, ⟨e, hlabeled, rfl⟩ | ⟨-, rfl⟩⟩ := labelRoot_eq_some h
  · refine ⟨⟨r', hr', hbelow.mono fun id e' he' => ?_⟩, ?_⟩
    · rwa [children_setShape _ hlabeled] at he'
    · rw [shape_setShape] at hshape
      split at hshape
      · cases hshape
      · exact hshape
  · have hroot : g.Owned r.expression := ⟨r, List.mem_of_getElem? hr, .refl⟩
    -- A walk that is at the new root goes on to the former one.
    have hwalk {a y : NodeId} (ha : a = g.nodes.size ∨ g.Owned a)
        (hbelow : Below ((g.addNode (.labeled (some label) r.expression)
          (g.node r.expression).location).2.setRoot index g.nodes.size) a y) :
        y = g.nodes.size ∨ g.Owned y := by
      induction hbelow with
      | refl => exact ha
      | @tail y e _ he ih =>
        rw [children, shape_setRoot, shape_addNode] at he
        split at he
        · rw [List.mem_singleton.mp he]
          exact .inr hroot
        · next hy => exact .inr ((ih.resolve_left hy).child he)
    rw [shape_setRoot, shape_addNode] at hshape
    split at hshape
    · cases hshape
    · next hx =>
      refine ⟨(hwalk ?_ hbelow).resolve_left hx, hshape⟩
      obtain ⟨i, hi⟩ := List.mem_iff_getElem?.mp hr'
      rcases rules_setRoot hi with ⟨-, r₀, -, rfl⟩ | ⟨-, hold⟩
      · exact .inl rfl
      · exact .inr ⟨r', List.mem_of_getElem? hold, .refl⟩

theorem Resolved.labelRoot (h : g.Resolved) (hlabel : g.labelRoot index label = some g') :
    g'.Resolved := by
  intro x name hx hshape
  obtain ⟨hx, hshape⟩ := owned_labelRoot hlabel hx hshape
  rw [ruleIndex?_of_headers (headers_labelRoot hlabel)]
  exact h x name hx hshape

theorem owned_redirect (g : Grammar) (source target : String) :
    (g.redirect source target).Owned = g.Owned := by
  funext x
  rw [Owned, below_redirect]
  rfl

theorem Resolved.redirect {source target : String} (h : g.Resolved)
    (htarget : (g.ruleIndex? target).isSome) : (g.redirect source target).Resolved := by
  intro x name hx hshape
  rw [owned_redirect] at hx
  rw [shape_redirect] at hshape
  split at hshape
  · next name' hx' =>
    rw [Shape.ruleRef.injEq, redirected] at hshape
    split at hshape
    · exact hshape ▸ htarget
    · exact hshape ▸ h x name' hx hx'
  · exact h x name hx hshape

/-- Rules may be removed that nothing refers to. -/
theorem Resolved.removeRules {indices : List Nat} (h : g.Resolved)
    (hkept : ∀ x name i, (g.removeRules indices).Owned x → g.shape x = .ruleRef name →
      g.ruleIndex? name = some i → i ∉ indices) : (g.removeRules indices).Resolved := by
  intro x name hx hshape
  have hx' : g.Owned x := by
    obtain ⟨r, hr, hbelow⟩ := hx
    exact ⟨r, mem_of_mem_removeRules hr, hbelow⟩
  obtain ⟨i, hi⟩ := Option.isSome_iff_exists.mp (h x name hx' hshape)
  obtain ⟨r, hr, -⟩ := name_of_ruleIndex? hi
  obtain ⟨place, hplace, -⟩ := ruleIndex?_removeRules hi hr (hkept x name i hx hshape hi)
  exact Option.isSome_iff_exists.mpr ⟨place, hplace⟩

end Grammar

namespace Session

variable {s : Session}

/-- References resolve if none was found whose rule is missing. -/
theorem resolved_of_missingReferences (h : s.missingReferences = [])
    (hlinks : s.facts.Links s.grammar) (htrees : s.grammar.HasTrees) : s.grammar.Resolved := by
  rintro x name ⟨r, hr, hbelow⟩ hshape
  obtain ⟨index, hindex⟩ := List.mem_iff_getElem?.mp hr
  have hmem : x ∈ (List.range s.grammar.rules.length).flatMap s.grammar.ruleNodes :=
    List.mem_flatMap.mpr ⟨index, List.mem_range.mpr (List.getElem?_eq_some_iff.mp hindex).1,
      (Grammar.mem_ruleNodes hindex (htrees r hr)).mpr hbelow⟩
  have hnone := List.filterMap_eq_nil_iff.mp h x hmem
  rw [← hlinks.target?_eq hindex (htrees r hr) hbelow hshape]
  by_contra hmissing
  rw [missingReference?] at hnone
  rw [Grammar.shape] at hshape
  generalize s.grammar.node x = n at hnone hshape
  obtain ⟨shape, location⟩ := n
  obtain rfl : shape = .ruleRef name := hshape
  simp at hnone
  exact hmissing (Option.isSome_iff_ne_none.mpr hnone)

/-- Reducing proxies leaves no reference without a rule. -/
theorem resolved_reduceProxies (h : s.grammar.Resolved) : s.reduceProxies.2.grammar.Resolved := by
  refine reduceProxies_induct (P := fun _ t => t.grammar.Resolved) h fun doomed t index ht => ?_
  rcases t.reduceProxy_cases index with hsame | ⟨r, p, target, -, -, htarget, -, -, hgrammar⟩
  · rwa [hsame]
  · have hredirected : (t.grammar.redirect r.name p.target).Resolved :=
      ht.redirect (Option.isSome_iff_exists.mpr ⟨target, htarget⟩)
    rcases hgrammar with hgrammar | ⟨label, hlabel⟩
    · rwa [hgrammar]
    · exact hredirected.labelRoot hlabel

section

variable (h : s.UpToDate)
include h

/-- The rules that are used refer to none that is dropped. -/
theorem UpToDate.not_mem_unused (htrees : s.grammar.HasTrees) {x : NodeId} {name : String}
    {index : Nat} (hx : (s.grammar.removeRules s.unused).Owned x)
    (hshape : s.grammar.shape x = .ruleRef name) (hindex : s.grammar.ruleIndex? name = some index) :
    index ∉ s.unused := by
  obtain ⟨r, hr, hbelow⟩ := hx
  obtain ⟨i, hr, hused⟩ := Grammar.mem_removeRules.mp hr
  have hi : i ∈ s.grammar.kept s.unused :=
    Grammar.mem_kept.mpr ⟨(List.getElem?_eq_some_iff.mp hr).1, hused⟩
  obtain ⟨from_, hfrom, hfirst⟩ := (h.mem_kept htrees).mp hi
  have hname : s.grammar.Reachable s.facts.starters name := .call hfrom hfirst hr hbelow hshape
  exact (Grammar.mem_kept.mp ((h.mem_kept htrees).mpr ⟨name, hname, hindex⟩)).2

/-- Nothing refers to a proxy that is to go. -/
theorem UpToDate.not_mem_doomed (hneeded : s.AllNeeded) {x : NodeId} {name : String} {index : Nat}
    (hshape : s.reduceProxies.2.grammar.shape x = .ruleRef name)
    (hindex : s.reduceProxies.2.grammar.ruleIndex? name = some index) :
    index ∉ s.reduceProxies.1 := by
  intro hmem
  obtain ⟨-, hreduced⟩ := h.reduceProxies hneeded
  rw [Grammar.ruleIndex?_of_headers hreduced.headers] at hindex
  obtain ⟨-, r, hr, hrefs⟩ := hreduced.gone index hmem
  obtain ⟨r', hr', rfl⟩ := Grammar.name_of_ruleIndex? hindex
  rw [hr] at hr'
  cases hr'
  exact hrefs x hshape

variable (hresolved : s.grammar.Resolved)
include hresolved

theorem UpToDate.resolved_dropUnusedRules (htrees : s.grammar.HasTrees) :
    s.dropUnusedRules.grammar.Resolved := by
  rw [dropUnusedRules_grammar]
  exact hresolved.removeRules fun x name i hx => h.not_mem_unused htrees hx

theorem UpToDate.resolved_elideProxies (hneeded : s.AllNeeded) :
    s.elideProxies.grammar.Resolved := by
  rw [elideProxies_grammar]
  exact (resolved_reduceProxies hresolved).removeRules fun x name i _ => h.not_mem_doomed hneeded

end

end Session

/-! ## Grammars that were checked -/

/-- What is kept up by all passes is kept up by a stage. -/
theorem Upkeep.run_stage {g : Grammar} {options : Options} (before : Pipeline) {after : Pipeline}
    {stage : Stage} {s t : Session} (hstandard : Pipeline.standard = before ++ stage :: after)
    (htrees : g.HasTrees) (h : Upkeep g options before.passes.length s)
    (hrun : stage.run s = (.ok (), t)) :
    Upkeep g options (before.passes.length + stage.passes.length) t := by
  have hpass : ∀ i pass, stage.passes[i]? = some pass →
      Advances (Upkeep g options) (before.passes.length + i) pass := by
    intro i pass hi
    refine advances htrees _ pass ?_
    have hpasses : Pipeline.standard.passes =
        before.passes ++ (stage.passes ++ Pipeline.passes after) := by
      rw [hstandard, Pipeline.passes, List.flatMap_append, List.flatMap_cons]
      rfl
    rw [hpasses, List.getElem?_append_right (Nat.le_add_right _ _), Nat.add_sub_cancel_left,
      List.getElem?_append_left (List.getElem?_eq_some_iff.mp hi).1, hi]
  obtain ⟨v, hpasses, hkeeps, -⟩ := Stage.run_eq_ok hrun
  have hbegun := saidOnly _ s (stage.begun s) rfl rfl rfl h
  have hend := (Stage.passSteps_induct saidOnly stage.name hpass hbegun).2 v hpasses
  exact saidOnly _ v t hkeeps.grammar hkeeps.facts hkeeps.options hend

/-- What is known when a grammar was prepared and checked and nothing was found: of the session
before unused rules were dropped, and of the session at the end. -/
structure Checked (g : Grammar) (options : Options) (p s : Session) : Prop where
  prepared : p.grammar = g
  preparedStarters : p.facts.starters = (options.startRules.resolve g).starters
  preparedUpToDate : p.UpToDate
  preparedResolved : p.grammar.Resolved
  grammar : s.grammar = p.dropUnusedRules.grammar
  starters : s.facts.starters = (options.startRules.resolve g).starters
  upToDate : s.UpToDate
  needed : s.AllNeeded
  resolved : s.grammar.Resolved

namespace Checked

variable {g : Grammar} {options : Options} {p s t u : Session}

theorem of_run (htrees : g.HasTrees) (h : Upkeep g options 0 s)
    (hprepare : Stage.run ⟨"prepare", [.link, .statistics, .descriptions]⟩ s = (.ok (), t))
    (hcheck : Stage.run ⟨"check", [.duplicateRules, .missingRules, .unusedRules, .consumption,
      .leftRecursion, .infiniteLoops, .duplicateLabels]⟩ t = (.ok (), u)) :
    Upkeep g options (Pipeline.passes (Pipeline.standard.take 2)).length u ∧
      ∃ p, Checked g options p u := by
  have ht := Upkeep.run_stage [] rfl htrees h hprepare
  have hu := Upkeep.run_stage (Pipeline.standard.take 1) rfl htrees ht hcheck
  obtain ⟨p, c, hpgrammar, hpfacts, hmissing, hcgrammar, -, -, -, hcu⟩ := Accepted.of_check hcheck
  have hpg : p.grammar = g := hpgrammar.trans (ht.whole (by decide))
  have hplinked : p.UpToDate := (ht.linked (by decide)).of_same hpgrammar hpfacts
  have hresolved := Session.resolved_of_missingReferences hmissing hplinked.links (hpg ▸ htrees)
  have hgrammar : u.grammar = p.dropUnusedRules.grammar := hcu.grammar.trans hcgrammar
  refine ⟨hu, p, hpg, ?_, hplinked, hresolved, hgrammar, hu.starters (by decide),
    hu.linked (by decide), hu.needed (by decide), ?_⟩
  · rw [hpfacts, ht.starters (by decide)]
  · rw [hgrammar]
    exact hplinked.resolved_dropUnusedRules hresolved (hpg ▸ htrees)

/-- What is said afterwards does not matter. -/
theorem congr (h : Checked g options p s) (hgrammar : t.grammar = s.grammar)
    (hfacts : t.facts = s.facts) : Checked g options p t :=
  { h with
    grammar := hgrammar.trans h.grammar
    starters := hfacts ▸ h.starters
    upToDate := h.upToDate.of_same hgrammar hfacts
    needed := h.needed.congr hgrammar (congrArg Facts.starters hfacts)
    resolved := hgrammar ▸ h.resolved }

theorem hasTrees (h : Checked g options p s) (htrees : g.HasTrees) : s.grammar.HasTrees := by
  rw [h.grammar, Session.dropUnusedRules_grammar, h.prepared]
  exact htrees.removeRules _

end Checked

end PegMachine
