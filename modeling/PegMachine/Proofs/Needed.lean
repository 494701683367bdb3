import PegMachine.Proofs.Proxies
import PegMachine.Proofs.Relinking

/-!
# Rules that are needed

A rule is needed if a parse may come to it from a start rule. Dropping unused rules leaves exactly
those. Taking out proxies leaves no rule behind that is not needed: whatever led to a proxy leads to
the rule that it stands for afterwards, and nothing leads to the proxy any more.
-/

namespace PegMachine

namespace Grammar

variable {g g' : Grammar} {starters : List String} {name source target label : String}
  {index k : Nat} {r : Rule} {p : Proxy}

/-- The names of the rules that a parse may come to from some rules. -/
inductive Reachable (g : Grammar) (starters : List String) : String → Prop where
  | start {name : String} (h : name ∈ starters) : g.Reachable starters name
  | call {name name' : String} {index : Nat} {r : Rule} {x : NodeId}
    (h : g.Reachable starters name) (hindex : g.ruleIndex? name = some index)
    (hr : g.rules[index]? = some r) (hx : g.Below r.expression x)
    (hshape : g.shape x = .ruleRef name') : g.Reachable starters name'

/-- A grammar is left of another one when those rules are dropped that are not the first ones with
the names that can be reached. -/
def LeavesReachable (g : Grammar) (starters : List String) (g' : Grammar) : Prop :=
  g'.nodes = g.nodes ∧ ∃ kept : List Nat, kept.Pairwise (· < ·) ∧
    g'.rules.map some = kept.map (g.rules[·]?) ∧
    ∀ i, i ∈ kept ↔ ∃ name, g.Reachable starters name ∧ g.ruleIndex? name = some i

/-- Where rules keep their references, what was reachable still is. -/
theorem Reachable.mono (h : g.Reachable starters name)
    (hrules : ∀ name index r, g.Reachable starters name → g.ruleIndex? name = some index →
      g.rules[index]? = some r → ∃ index' r', g'.ruleIndex? name = some index' ∧
        g'.rules[index']? = some r' ∧ ∀ x name', g.Below r.expression x →
          g.shape x = .ruleRef name' → g'.Below r'.expression x ∧ g'.shape x = .ruleRef name') :
    g'.Reachable starters name := by
  induction h with
  | start hmem => exact .start hmem
  | call hfrom hindex hr hx hshape ih =>
    obtain ⟨index', r', hindex', hr', hrefs⟩ := hrules _ _ _ hfrom hindex hr
    obtain ⟨hx', hshape'⟩ := hrefs _ _ hx hshape
    exact .call ih hindex' hr' hx' hshape'

theorem Below.mono {id x : NodeId} (h : g.Below id x)
    (hchildren : ∀ id, ∀ e ∈ g.children id, e ∈ g'.children id) : g'.Below id x :=
  Relation.ReflTransGen.mono hchildren _ _ h

/-! ## Headers of rules -/

theorem ruleIndex?_of_headers (h : g'.rules.map Rule.header = g.rules.map Rule.header)
    (name : String) : g'.ruleIndex? name = g.ruleIndex? name := by
  have hnames : g'.rules.map (·.name) = g.rules.map (·.name) := by
    have := congrArg (List.map Prod.fst) h
    simpa [Rule.header, Function.comp_def] using this
  have hindex (g : Grammar) : g.ruleIndex? name = (g.rules.map (·.name)).findIdx? (· = name) := by
    rw [List.findIdx?_map]
    rfl
  rw [hindex, hindex, hnames]

theorem UniqueNames.of_headers (h : g.UniqueNames)
    (hheaders : g'.rules.map Rule.header = g.rules.map Rule.header) : g'.UniqueNames := by
  have hnames := congrArg (List.map Prod.fst) hheaders
  rw [List.map_map, List.map_map] at hnames
  exact (congrArg List.Nodup hnames).mpr h

theorem headers_labelRoot (h : g.labelRoot index label = some g') :
    g'.rules.map Rule.header = g.rules.map Rule.header := by
  obtain ⟨r, -, ⟨e, -, rfl⟩ | ⟨-, rfl⟩⟩ := labelRoot_eq_some h
  · rfl
  · refine List.ext_getElem? fun i => ?_
    simp only [setRoot, addNode, List.getElem?_map, List.getElem?_modify]
    split
    · rw [Option.map_eq_map, Option.map_map]
      rfl
    · rw [Option.map_eq_map, Option.map_id_fun', id]

/-! ## Redirecting references -/

theorem children_redirect (g : Grammar) (source target : String) (id : NodeId) :
    (g.redirect source target).children id = g.children id := by
  rw [children, children, shape_redirect]
  split
  · next name hshape =>
    rw [hshape]
    rfl
  · rfl

theorem below_redirect (g : Grammar) (source target : String) :
    (g.redirect source target).Below = g.Below := by
  have hchildren : (g.redirect source target).children = g.children :=
    funext fun id => children_redirect g source target id
  unfold Below
  rw [hchildren]

/-- The only reference below a proxy is the one to the rule that it stands for. -/
theorem eq_target_of_below (hp : g.proxy? k = some p) (hr : g.rules[k]? = some r) {x : NodeId}
    (hx : g.Below r.expression x) (hshape : g.shape x = .ruleRef name) : name = p.target := by
  obtain ⟨r', hr', -, hbody⟩ := proxy?_eq_some hp
  rw [hr] at hr'
  cases hr'
  -- There is nothing below a reference.
  have hleaf {id x : NodeId} (href : g.shape id = .ruleRef p.target) (hx : g.Below id x) :
      x = id := by
    rcases Relation.ReflTransGen.cases_head hx with rfl | ⟨e, he, -⟩
    · rfl
    · rw [children, href] at he
      cases he
  rcases hbody with ⟨href, -⟩ | ⟨e, hlabeled, href⟩
  · rw [hleaf href hx, href] at hshape
    cases hshape
    rfl
  · rcases Relation.ReflTransGen.cases_head hx with rfl | ⟨e', he', hx⟩
    · rw [hlabeled] at hshape
      cases hshape
    · rw [children, hlabeled] at he'
      rw [List.mem_singleton.mp he'] at hx
      rw [hleaf href hx, href] at hshape
      cases hshape
      rfl

/-- A proxy leads to the rule that it stands for, also once it was reduced. -/
theorem exists_reference (hp : g.proxy? k = some p) (hr : g.rules[k]? = some r) :
    ∃ x, g.Below r.expression x ∧ g.shape x = .ruleRef p.target := by
  obtain ⟨r', hr', -, hbody⟩ := proxy?_eq_some hp
  rw [hr] at hr'
  cases hr'
  rcases hbody with ⟨href, -⟩ | ⟨e, hlabeled, href⟩
  · exact ⟨r.expression, .refl, href⟩
  · refine ⟨e, .single ?_, href⟩
    rw [children, hlabeled]
    exact List.mem_singleton_self e

/-- What led to a proxy leads to the rule that it stands for once references were redirected. -/
theorem reachable_redirect (hunique : g.UniqueNames) (hp : g.proxy? k = some p)
    (hr : g.rules[k]? = some r) (h : g.Reachable starters name) :
    (g.redirect r.name p.target).Reachable starters (redirected r.name p.target name) := by
  obtain ⟨r', hr', hne, -⟩ := proxy?_eq_some hp
  rw [hr] at hr'
  cases hr'
  have hkept : redirected r.name p.target p.target = p.target := if_neg hne
  induction h with
  | @start name hmem =>
    by_cases hname : name = r.name
    · subst hname
      obtain ⟨x, hx, hshape⟩ := exists_reference hp hr
      rw [redirected, if_pos rfl]
      refine .call (.start hmem) (hunique.ruleIndex?_eq hr) hr (x := x) ?_ ?_
      · rwa [below_redirect]
      · rw [shape_redirect, hshape]
        exact congrArg Shape.ruleRef hkept
    · rw [redirected, if_neg hname]
      exact .start hmem
  | @call name name' index r₀ x hfrom hindex hr₀ hx hshape ih =>
    by_cases hname : name = r.name
    · rw [hname, hunique.ruleIndex?_eq hr] at hindex
      cases hindex
      rw [hr] at hr₀
      cases hr₀
      rw [eq_target_of_below hp hr hx hshape, hkept]
      rwa [hname, redirected, if_pos rfl] at ih
    · rw [redirected, if_neg hname] at ih
      refine .call ih hindex hr₀ (x := x) ?_ ?_
      · rwa [below_redirect]
      · rw [shape_redirect, hshape]

/-- Putting a label on the root of a rule leaves everything reachable. -/
theorem reachable_labelRoot (h : g.labelRoot index label = some g')
    (hname : g.Reachable starters name) : g'.Reachable starters name := by
  refine hname.mono fun name i r' _ hi hr' => ?_
  have hi' : g'.ruleIndex? name = some i := by rwa [ruleIndex?_of_headers (headers_labelRoot h)]
  obtain ⟨r, hr, ⟨e, hlabeled, rfl⟩ | ⟨-, rfl⟩⟩ := labelRoot_eq_some h
  · refine ⟨i, r', hi', hr', fun x name' hx hshape => ⟨hx.mono fun id e' he' => ?_, ?_⟩⟩
    · rwa [children_setShape _ hlabeled]
    · rw [shape_setShape, if_neg, hshape]
      rintro ⟨rfl, -⟩
      rw [hlabeled] at hshape
      cases hshape
  · generalize hlocation : (g.node r.expression).location = location at hi' ⊢
    have hchildren (id : NodeId) (e : NodeId) (he : e ∈ g.children id) :
        e ∈ ((g.addNode (.labeled (some label) r.expression) location).2.setRoot index
          g.nodes.size).children id := by
      rw [children, shape_setRoot, shape_addNode]
      split
      · next hid =>
        rw [children, shape_of_size_le (Nat.le_of_eq hid.symm)] at he
        cases he
      · exact he
    have hrefs (x : NodeId) (name' : String) (hshape : g.shape x = .ruleRef name') :
        ((g.addNode (.labeled (some label) r.expression) location).2.setRoot index
          g.nodes.size).shape x = .ruleRef name' := by
      rw [shape_setRoot, shape_addNode, if_neg, hshape]
      rintro rfl
      rw [shape_of_size_le (Nat.le_refl _)] at hshape
      cases hshape
    by_cases hindex : index = i
    · subst hindex
      rw [hr] at hr'
      cases hr'
      refine ⟨index, { r' with expression := g.nodes.size }, hi', ?_, fun x name' hx hshape =>
        ⟨?_, hrefs x name' hshape⟩⟩
      · simp [setRoot, addNode, hr]
      · -- The former root is the only child of the new one.
        refine Relation.ReflTransGen.head ?_ (hx.mono hchildren)
        rw [children, shape_setRoot, shape_addNode, if_pos rfl]
        exact List.mem_singleton_self _
    · refine ⟨i, r', hi', ?_, fun x name' hx hshape => ⟨hx.mono hchildren, hrefs x name' hshape⟩⟩
      simp [setRoot, addNode, hindex, hr']

/-! ## Reducing proxies -/

/-- What becomes of a grammar while proxies are reduced: rules keep their headers, nothing refers to
the rules that are to go, which no parse starts from, and all other rules are reachable. -/
structure Reduced (f : Facts) (g : Grammar) (doomed : List Nat) (g' : Grammar) : Prop where
  headers : g'.rules.map Rule.header = g.rules.map Rule.header
  gone : ∀ i ∈ doomed, ¬f.Starts i ∧
    ∃ r, g.rules[i]? = some r ∧ ∀ x, g'.shape x ≠ .ruleRef r.name
  needed : ∀ (i : Nat) (r : Rule), i ∉ doomed → g.rules[i]? = some r →
    g'.Reachable f.starters r.name

namespace Reduced

variable {f : Facts} {g₀ : Grammar} {doomed : List Nat}

/-- Rules have the names that they had. -/
theorem exists_rule (h : Reduced f g₀ doomed g) (hr : g.rules[k]? = some r) :
    ∃ r₀, g₀.rules[k]? = some r₀ ∧ r₀.name = r.name := by
  have hk := congrArg (·[k]?) h.headers
  simp only [List.getElem?_map, hr, Option.map_some] at hk
  obtain ⟨r₀, hr₀, hheader⟩ := Option.map_eq_some_iff.mp hk.symm
  exact ⟨r₀, hr₀, congrArg Prod.fst hheader⟩

/-- References to a proxy are redirected, and it can go unless a parse starts from it. -/
theorem redirect {doomed' : List Nat} (h : Reduced f g₀ doomed g) (hunique : g₀.UniqueNames)
    (hstarts : ∀ i, f.Starts i → ∃ name ∈ f.starters, g₀.ruleIndex? name = some i)
    (hp : g.proxy? k = some p) (hr : g.rules[k]? = some r)
    (hdoomed : ∀ i, i ∈ doomed' ↔ i ∈ doomed ∨ i = k ∧ ¬f.Starts k) :
    Reduced f g₀ doomed' (g.redirect r.name p.target) := by
  obtain ⟨r', hr', hne, -⟩ := proxy?_eq_some hp
  rw [hr] at hr'
  cases hr'
  obtain ⟨r₀, hr₀, hname₀⟩ := h.exists_rule hr
  refine ⟨h.headers, fun i hi => ?_, fun i r' hi hr' => ?_⟩
  · rcases (hdoomed i).mp hi with hk | ⟨rfl, hno⟩
    · obtain ⟨hno, r', hr', hrefs⟩ := h.gone i hk
      refine ⟨hno, r', hr', fun x hshape => ?_⟩
      -- Neither was there such a reference, nor does the proxy refer to a rule that is to go.
      obtain ⟨y, -, hy⟩ := exists_reference hp hr
      rw [shape_redirect] at hshape
      split at hshape
      · next name hx =>
        rw [Shape.ruleRef.injEq, redirected] at hshape
        split at hshape
        · exact hrefs y (hshape ▸ hy)
        · exact hrefs x (hshape ▸ hx)
      · exact hrefs x hshape
    · refine ⟨hno, r₀, hr₀, fun x hshape => ?_⟩
      rw [hname₀, shape_redirect] at hshape
      split at hshape
      · next name hx =>
        rw [Shape.ruleRef.injEq, redirected] at hshape
        split at hshape
        · exact hne hshape
        · next hname => exact hname hshape
      · next hother => exact hother _ hshape
  · have hold : i ∉ doomed := fun hmem => hi ((hdoomed i).mpr (.inl hmem))
    have hreached := reachable_redirect (hunique.of_headers h.headers) hp hr
      (h.needed i r' hold hr')
    by_cases hname : r'.name = r.name
    · -- The proxy itself is only left if a parse starts from it.
      have hik : i = k := by
        have hi' := hunique.ruleIndex?_eq hr'
        rw [hname, ← hname₀, hunique.ruleIndex?_eq hr₀] at hi'
        exact (Option.some.inj hi').symm
      subst hik
      by_cases hstart : f.Starts i
      · obtain ⟨name, hmem, hindex⟩ := hstarts i hstart
        obtain ⟨r₁, hr₁, rfl⟩ := name_of_ruleIndex? hindex
        rw [hr'] at hr₁
        cases hr₁
        exact .start hmem
      · exact absurd ((hdoomed i).mpr (.inr ⟨rfl, hstart⟩)) hi
    · rwa [redirected, if_neg hname] at hreached

theorem labelRoot (h : Reduced f g₀ doomed g) (hlabel : g.labelRoot index label = some g') :
    Reduced f g₀ doomed g' := by
  refine ⟨(headers_labelRoot hlabel).trans h.headers, fun i hi => ?_, fun i r hi hr => ?_⟩
  · obtain ⟨hno, r, hr, hrefs⟩ := h.gone i hi
    exact ⟨hno, r, hr,
      shapes_labelRoot (P := (· ≠ .ruleRef r.name)) (fun _ _ => nofun) hlabel hrefs⟩
  · exact reachable_labelRoot hlabel (h.needed i r hi hr)

/-- What can be reached does not go. -/
theorem not_doomed (h : Reduced f g₀ doomed g)
    (hstarts : ∀ name ∈ f.starters, ∀ i, g₀.ruleIndex? name = some i → f.Starts i)
    (hname : g.Reachable f.starters name) (hindex : g.ruleIndex? name = some index) :
    index ∉ doomed := by
  rw [ruleIndex?_of_headers h.headers] at hindex
  intro hmem
  obtain ⟨hno, r, hr, hrefs⟩ := h.gone index hmem
  obtain ⟨r', hr', rfl⟩ := name_of_ruleIndex? hindex
  rw [hr] at hr'
  cases hr'
  cases hname with
  | start hmem => exact hno (hstarts r.name hmem index hindex)
  | call _ _ _ _ hshape => exact hrefs _ hshape

/-- What can be reached is still reachable when the rules that are to go are removed. -/
theorem reachable_removeRules (h : Reduced f g₀ doomed g)
    (hstarts : ∀ name ∈ f.starters, ∀ i, g₀.ruleIndex? name = some i → f.Starts i)
    (hname : g.Reachable f.starters name) :
    (g.removeRules doomed).Reachable f.starters name := by
  refine hname.mono fun name index r hreached hindex hr => ?_
  obtain ⟨place, hplace, -, hr'⟩ :=
    ruleIndex?_removeRules hindex hr (h.not_doomed hstarts hreached hindex)
  exact ⟨place, r, hplace, hr', fun x name' hx hshape => ⟨hx, hshape⟩⟩

end Reduced

end Grammar

/-! ## In a session -/

namespace Facts

/-- The rules that are marked are the first ones with the names that can be reached. -/
theorem marked_reachable_iff {f : Facts} {g : Grammar} (h : f.Links g) (htrees : g.HasTrees)
    {i : Nat} : Reach.Marked (f.reachable g) i ↔
      ∃ name, g.Reachable f.starters name ∧ g.ruleIndex? name = some i := by
  constructor
  · refine Reach.of_marked_closure (P := fun i =>
      ∃ name, g.Reachable f.starters name ∧ g.ruleIndex? name = some i) (fun i hi => ?_)
      fun i hfrom j hj => ?_
    · obtain ⟨name, hname, hindex⟩ := List.mem_filterMap.mp hi
      exact ⟨name, .start hname, hindex⟩
    · obtain ⟨name, hname, hindex⟩ := hfrom
      rw [getD_callees, if_pos (ruleIndex?_lt hindex)] at hj
      obtain ⟨x, hx, htarget⟩ := List.mem_filterMap.mp hj
      obtain ⟨name', hshape, hindex'⟩ := h.refers x j htarget
      obtain ⟨r, hr, -⟩ := Grammar.name_of_ruleIndex? hindex
      have hbelow := (Grammar.mem_ruleNodes hr (htrees r (List.mem_of_getElem? hr))).mp hx
      exact ⟨name', .call hname hindex hr hbelow hshape, hindex'⟩
  · rintro ⟨name, hname, hindex⟩
    induction hname generalizing i with
    | start hmem => exact reachable_of_starter hmem hindex
    | call _ hfrom hr hx hshape ih =>
      have htree := htrees _ (List.mem_of_getElem? hr)
      have htarget := (h.target?_eq hr htree hx hshape).trans hindex
      exact reachable_of_target (ih hfrom) ((Grammar.mem_ruleNodes hr htree).mpr hx) htarget
        (ruleIndex?_lt hindex)

end Facts

namespace Session

variable {s t : Session} {indices : List Nat}

/-- All rules are reachable from start rules and have names of their own. -/
structure AllNeeded (s : Session) : Prop where
  unique : s.grammar.UniqueNames
  reachable : ∀ r ∈ s.grammar.rules, s.grammar.Reachable s.facts.starters r.name

theorem AllNeeded.congr (h : s.AllNeeded) (hgrammar : t.grammar = s.grammar)
    (hstarters : t.facts.starters = s.facts.starters) : t.AllNeeded := by
  refine ⟨?_, ?_⟩
  · rw [hgrammar]
    exact h.unique
  · rw [hgrammar, hstarters]
    exact h.reachable

theorem starters_relink (s : Session) : s.relink.facts.starters = s.facts.starters :=
  Facts.starters_link _ _ _

theorem starters_removeRules (s : Session) (indices : List Nat) :
    (s.removeRules indices).facts.starters = s.facts.starters := starters_relink _

/-- Removing rules other than the start rules brings the tables up to date. -/
theorem upToDate_removeRules (hsome : s.facts.starters ≠ []) (hdistinct : s.facts.starters.Nodup)
    (hkept : ∀ name ∈ s.facts.starters,
      ∃ index, s.grammar.ruleIndex? name = some index ∧ index ∉ indices) :
    (s.removeRules indices).UpToDate := by
  refine upToDate_link rfl rfl hsome hdistinct fun name hname => ?_
  obtain ⟨index, hindex, hkept⟩ := hkept name hname
  obtain ⟨r, hr, -⟩ := Grammar.name_of_ruleIndex? hindex
  obtain ⟨place, hplace, -, -⟩ := Grammar.ruleIndex?_removeRules hindex hr hkept
  exact Option.isSome_iff_exists.mpr ⟨place, hplace⟩

theorem keepsFirst_removeRules {g : Grammar} {names : List String}
    (hkept : ∀ name ∈ names, ∃ index, g.ruleIndex? name = some index ∧ index ∉ indices) :
    g.KeepsFirst (g.removeRules indices) (g.kept indices) names := by
  intro name hname
  obtain ⟨index, hindex, hkept⟩ := hkept name hname
  obtain ⟨r, hr, -⟩ := Grammar.name_of_ruleIndex? hindex
  obtain ⟨place, hplace, hfrom, -⟩ := Grammar.ruleIndex?_removeRules hindex hr hkept
  exact ⟨place, index, hplace, hindex, hfrom⟩

/-! ### Unused rules -/

section

variable (h : s.UpToDate)
include h

/-- Start rules are used. -/
theorem UpToDate.used {name : String} (hname : name ∈ s.facts.starters) :
    ∃ index, s.grammar.ruleIndex? name = some index ∧ index ∉ s.unused := by
  obtain ⟨index, hindex⟩ := Option.isSome_iff_exists.mp (h.resolved name hname)
  refine ⟨index, hindex, fun hmem => ?_⟩
  exact (mem_unused.mp hmem).2 (Facts.reachable_of_starter hname hindex)

theorem UpToDate.dropUnusedRules : s.dropUnusedRules.UpToDate ∧
    s.dropUnusedRules.facts.starters = s.facts.starters := by
  obtain ⟨t, hkeeps, ⟨-, hdropped⟩ | hdropped⟩ := dropUnusedRules_cases s
  · rw [hdropped]
    exact ⟨h.keeps hkeeps, congrArg Facts.starters hkeeps.facts⟩
  · rw [hdropped]
    have ht := h.keeps hkeeps
    refine ⟨upToDate_removeRules ht.starters_ne_nil ht.distinct fun name hname => ?_, ?_⟩
    · rw [hkeeps.grammar]
      rw [hkeeps.facts] at hname
      exact h.used hname
    · rw [starters_removeRules, hkeeps.facts]

theorem UpToDate.keepsFirst_dropUnusedRules :
    s.grammar.KeepsFirst s.dropUnusedRules.grammar (s.grammar.kept s.unused) s.facts.starters := by
  rw [dropUnusedRules_grammar]
  exact keepsFirst_removeRules fun name hname => h.used hname

variable (htrees : s.grammar.HasTrees)
include htrees

/-- The rules that are kept are the first ones with the names that can be reached. -/
theorem UpToDate.mem_kept {i : Nat} : i ∈ s.grammar.kept s.unused ↔
    ∃ name, s.grammar.Reachable s.facts.starters name ∧ s.grammar.ruleIndex? name = some i := by
  rw [Grammar.mem_kept, mem_unused, ← Facts.marked_reachable_iff h.links htrees]
  constructor
  · rintro ⟨hlt, hnot⟩
    by_contra hunmarked
    exact hnot ⟨hlt, hunmarked⟩
  · intro hmarked
    exact ⟨Reach.lt_of_marked_closure hmarked, fun hnot => hnot.2 hmarked⟩

/-- All rules that are left when unused ones are dropped are needed. -/
theorem UpToDate.allNeeded_dropUnusedRules : s.dropUnusedRules.AllNeeded := by
  refine ⟨uniqueNames_dropUnusedRules h.links.refers, fun r hr => ?_⟩
  rw [h.dropUnusedRules.2, dropUnusedRules_grammar]
  rw [dropUnusedRules_grammar] at hr
  have hkept {name : String} (hname : s.grammar.Reachable s.facts.starters name) :
      (s.grammar.removeRules s.unused).Reachable s.facts.starters name := by
    refine hname.mono fun name index r hreached hindex hr => ?_
    have hmem := (h.mem_kept htrees).mpr ⟨name, hreached, hindex⟩
    obtain ⟨place, hplace, -, hr'⟩ :=
      Grammar.ruleIndex?_removeRules hindex hr (Grammar.mem_kept.mp hmem).2
    exact ⟨place, r, hplace, hr', fun x name' hx hshape => ⟨hx, hshape⟩⟩
  obtain ⟨index, hr, hused⟩ := Grammar.mem_removeRules.mp hr
  have hmem : index ∈ s.grammar.kept s.unused :=
    Grammar.mem_kept.mpr ⟨(List.getElem?_eq_some_iff.mp hr).1, hused⟩
  obtain ⟨name, hname, hindex⟩ := (h.mem_kept htrees).mp hmem
  obtain ⟨r', hr', rfl⟩ := Grammar.name_of_ruleIndex? hindex
  rw [hr] at hr'
  cases hr'
  exact hkept hname

end

/-! ### Proxies -/

section

variable (h : s.UpToDate)
include h

/-- Reducing proxies leaves the facts as they are. -/
theorem UpToDate.reduceProxies (hneeded : s.AllNeeded) : s.reduceProxies.2.facts = s.facts ∧
    s.grammar.Reduced s.facts s.reduceProxies.1 s.reduceProxies.2.grammar := by
  refine reduceProxies_induct (P := fun doomed t => t.facts = s.facts ∧
    s.grammar.Reduced s.facts doomed t.grammar) ⟨rfl, rfl, nofun, fun i r _ hr =>
      hneeded.reachable r (List.mem_of_getElem? hr)⟩ fun doomed t index => ?_
  rintro ⟨hfacts, hreduced⟩
  rcases t.reduceProxy_cases index with
    hsame | ⟨r, p, target, hp, hr, -, hgoes, hfacts', hgrammar⟩
  · rw [hsame]
    exact ⟨hfacts, hreduced⟩
  · refine ⟨hfacts'.trans hfacts, ?_⟩
    have hredirected : s.grammar.Reduced s.facts
        (if (t.reduceProxy index).1 then doomed ++ [index] else doomed)
        (t.grammar.redirect r.name p.target) := by
      refine hreduced.redirect hneeded.unique (fun i => h.exists_of_starts) hp hr fun i => ?_
      rw [hgoes, hfacts, Facts.Starts]
      cases (s.facts.rules[index]?).any (·.starter.isStarter) <;> simp
    rcases hgrammar with hgrammar | ⟨label, hlabel⟩
    · rwa [hgrammar]
    · exact hredirected.labelRoot hlabel

/-- What taking out proxies does to the rules: some that no parse starts from go. -/
theorem UpToDate.elideProxies (hneeded : s.AllNeeded) : s.elideProxies.UpToDate ∧
    s.elideProxies.facts.starters = s.facts.starters ∧ s.elideProxies.AllNeeded ∧
    ∃ kept, s.grammar.Selects s.elideProxies.grammar kept ∧
      s.grammar.KeepsFirst s.elideProxies.grammar kept s.facts.starters := by
  obtain ⟨hfacts, hreduced⟩ := h.reduceProxies hneeded
  have hgrammar := elideProxies_grammar s
  have hindex := Grammar.ruleIndex?_of_headers hreduced.headers
  have hstarts : ∀ name ∈ s.facts.starters, ∀ i, s.grammar.ruleIndex? name = some i →
      s.facts.Starts i := h.links.starts
  have hkept : ∀ name ∈ s.facts.starters, ∃ index,
      s.reduceProxies.2.grammar.ruleIndex? name = some index ∧ index ∉ s.reduceProxies.1 := by
    intro name hname
    obtain ⟨index, hi⟩ := Option.isSome_iff_exists.mp (h.resolved name hname)
    rw [← hindex] at hi
    exact ⟨index, hi, hreduced.not_doomed hstarts (.start hname) hi⟩
  obtain ⟨t, hkeeps, helided⟩ := s.elideProxies_eq
  have htfacts : t.facts = s.facts := hkeeps.facts.trans hfacts
  have hstarters : s.elideProxies.facts.starters = s.facts.starters := by
    rw [helided, starters_removeRules, htfacts]
  refine ⟨?_, hstarters, ⟨?_, fun r hr => ?_⟩, s.reduceProxies.2.grammar.kept s.reduceProxies.1,
    ?_, ?_⟩
  · rw [helided]
    refine upToDate_removeRules ?_ ?_ ?_
    · rw [htfacts]
      exact h.starters_ne_nil
    · rw [htfacts]
      exact h.distinct
    · rw [htfacts, hkeeps.grammar]
      exact hkept
  · rw [hgrammar]
    exact (hneeded.unique.of_headers hreduced.headers).removeRules _
  · rw [hstarters, hgrammar]
    rw [hgrammar] at hr
    obtain ⟨index, hr, hleft⟩ := Grammar.mem_removeRules.mp hr
    obtain ⟨r₀, hr₀, hname⟩ := hreduced.exists_rule hr
    rw [← hname]
    exact hreduced.reachable_removeRules hstarts (hreduced.needed index r₀ hleft hr₀)
  · rw [hgrammar]
    exact (Grammar.selects_removeRules _ _).congr hreduced.headers.symm
  · rw [hgrammar]
    intro name hname
    obtain ⟨place, index, hplace, hi, hfrom⟩ := keepsFirst_removeRules hkept name hname
    exact ⟨place, index, hplace, by rwa [← hindex], hfrom⟩

end

end Session

end PegMachine
