import PegMachine.Proofs.Meaning
import PegMachine.Proofs.Trees

/-!
# Linked grammars

In the facts of a linked grammar, the target of a reference is the rule that it names. References
below a rule all have their targets, and the rules that a parse may start from are marked.
-/

namespace PegMachine

namespace Facts

variable {f : Facts} {g : Grammar}

/-- Targets are only known for references, and are the rules that these name. -/
def Refers (f : Facts) (g : Grammar) : Prop :=
  ∀ id target, f.target? id = some target →
    ∃ name, g.shape id = .ruleRef name ∧ g.ruleIndex? name = some target

theorem Refers.resolves (h : f.Refers g) : f.Resolves g := by
  intro id name target hshape htarget
  obtain ⟨name', hshape', hindex⟩ := h id target htarget
  rw [hshape] at hshape'
  cases hshape'
  exact hindex

/-- What references refer to only depends on their targets. -/
theorem Refers.congr {f' : Facts} (h : f.Refers g) (htargets : f'.targets = f.targets) :
    f'.Refers g := by
  intro id target htarget
  rw [target?, htargets] at htarget
  exact h id target htarget

theorem Refers.enterReference (h : f.Refers g) (invoker : String) (id : NodeId) :
    (enterReference g invoker id f).Refers g := by
  unfold Facts.enterReference
  split
  · next name hshape =>
    split
    · next target htarget =>
      intro id' target' htarget'
      simp only [target?, Array.getElem?_setIfInBounds] at htarget'
      split at htarget'
      · next heq =>
        split at htarget'
        · cases htarget'
          exact ⟨name, heq ▸ hshape, htarget⟩
        · cases htarget'
      · exact h id' target' htarget'
    · exact h
  · exact h

theorem Refers.enterNode (h : f.Refers g) (rule : Nat) (id : NodeId) (parent : Parent) :
    (enterNode rule id parent f).Refers g := h.congr rfl

/-- Annotations are passed by. -/
theorem visitRule_linker {index : Nat} {r : Rule} (hr : g.rules[index]? = some r) (name : String) :
    (linker g index name).visitRule g index f =
      (linker g index name).visit g g.depthBound r.expression (.rule index) f := by
  have hannotations : r.annotations.foldl (fun f a =>
      Visitor.afterAnnotation (linker g index name) index a <|
        Visitor.beforeAnnotation (linker g index name) index a f) f = f := List.foldl_fixed _
  rw [Visitor.visitRule, hr]
  dsimp only
  rw [hannotations]

section

variable {R : Facts → Facts → Prop}

/-- What entering a node keeps of two tables is kept by a walk. -/
theorem visit_linker_rel (hnode : ∀ f f' rule name id parent, R f f' →
      R (enterReference g name id (enterNode rule id parent f))
        (enterReference g name id (enterNode rule id parent f')))
    (rule : Nat) (name : String) (depth : Nat) (id : NodeId) (parent : Parent) {f f' : Facts}
    (h : R f f') : R ((linker g rule name).visit g depth id parent f).2
      ((linker g rule name).visit g depth id parent f').2 := by
  induction depth generalizing id parent f f' with
  | zero => exact h
  | succ depth ih =>
    have hwalk : ∀ (ids : List NodeId) (f f' : Facts), R f f' →
        R (ids.foldl (fun f child => ((linker g rule name).visit g depth child (.node id) f).2) f)
          (ids.foldl (fun f child => ((linker g rule name).visit g depth child (.node id) f).2)
            f') := by
      intro ids
      induction ids with
      | nil => exact fun _ _ h => h
      | cons child rest ihrest => exact fun _ _ h => ihrest _ _ (ih child (.node id) h)
    exact hwalk (g.children id) _ _ (hnode f f' rule name id parent h)

/-- What entering a node keeps of two tables is kept by entering those of all rules. -/
theorem linkRules_rel (hnode : ∀ f f' rule name id parent, R f f' →
      R (enterReference g name id (enterNode rule id parent f))
        (enterReference g name id (enterNode rule id parent f'))) (f f' : Facts) (h : R f f') :
    R (linkRules g f) (linkRules g f') := by
  unfold Facts.linkRules
  induction g.rules.zipIdx generalizing f f' with
  | nil => exact h
  | cons r rest ih =>
    refine ih _ _ ?_
    cases hr : g.rules[r.2]? with
    | none => simpa [Visitor.visitRule, hr] using h
    | some _ =>
      dsimp only
      rw [visitRule_linker hr, visitRule_linker hr]
      exact visit_linker_rel hnode _ _ _ _ _ h

/-- What marking a rule keeps of two tables is kept by marking several. -/
theorem markStarters_rel (hmark : ∀ f f' index starter, R f f' →
      R { f with rules := f.rules.modify index fun r => { r with starter } }
        { f' with rules := f'.rules.modify index fun r => { r with starter } })
    (place : Nat) (names : List String) (f f' : Facts) (h : R f f') :
    R (markStarters g place names f) (markStarters g place names f') := by
  induction names generalizing place f f' with
  | nil => exact h
  | cons name rest ih =>
    rw [markStarters, markStarters]
    refine ih (place + 1) _ _ ?_
    split
    · exact hmark _ _ _ _ h
    · exact h

end

theorem Refers.linkRules (h : f.Refers g) : (linkRules g f).Refers g :=
  linkRules_rel (R := fun f _ => f.Refers g)
    (fun _ _ rule name id parent h => (h.enterNode rule id parent).enterReference name id) _ f
    h

theorem targets_markStarters (place : Nat) (names : List String) :
    (markStarters g place names f).targets = f.targets :=
  markStarters_rel (R := fun f' _ => f'.targets = f.targets) (fun _ _ _ _ h => h) place names _ f
    rfl

/-- The targets in the facts of a grammar that was linked are what its references name. -/
theorem refers_link (f : Facts) (g : Grammar) (starters : List String) :
    (f.link g starters).Refers g := by
  have hunlinked : (f.unlinked g starters).Refers g := by
    intro id target htarget
    simp only [target?, unlinked, Array.getElem?_replicate] at htarget
    split at htarget <;> cases htarget
  exact hunlinked.linkRules.congr (targets_markStarters 0 starters)

/-- A grammar that was linked is resolved. -/
theorem resolves_link (f : Facts) (g : Grammar) (starters : List String) :
    (f.link g starters).Resolves g := (refers_link f g starters).resolves

/-! ## Everything is entered -/

/-- The target of a node is known, if it refers to a rule that exists. -/
def Enters (f : Facts) (g : Grammar) (x : NodeId) : Prop :=
  ∀ name target, g.shape x = .ruleRef name → g.ruleIndex? name = some target →
    f.target? x = some target

/-- Linking goes on from some facts to others. -/
structure LinksOn (g : Grammar) (f f' : Facts) : Prop where
  targets : f'.targets.size = f.targets.size
  rules : f'.rules.size = f.rules.size
  starters : f'.starters = f.starters
  enters : ∀ x, f.Enters g x → f'.Enters g x

theorem LinksOn.refl (f : Facts) : LinksOn g f f := ⟨rfl, rfl, rfl, fun _ h => h⟩

theorem LinksOn.trans {f' f'' : Facts} (h : LinksOn g f f') (h' : LinksOn g f' f'') :
    LinksOn g f f'' :=
  ⟨h'.targets.trans h.targets, h'.rules.trans h.rules, h'.starters.trans h.starters,
    fun x hx => h'.enters x (h.enters x hx)⟩

theorem linksOn_enterNode (rule : Nat) (id : NodeId) (parent : Parent) :
    LinksOn g f (enterNode rule id parent f) := ⟨rfl, rfl, rfl, fun _ h => h⟩

theorem linksOn_enterReference (invoker : String) (id : NodeId) :
    LinksOn g f (enterReference g invoker id f) := by
  unfold enterReference
  split
  · next name hshape =>
    split
    · next target htarget =>
      refine ⟨by simp, by simp, rfl, fun x hx name' target' hshape' htarget' => ?_⟩
      have hold := hx name' target' hshape' htarget'
      rw [target?] at hold ⊢
      rw [Array.getElem?_setIfInBounds]
      split
      · next hid =>
        subst hid
        rw [hshape] at hshape'
        cases hshape'
        rw [htarget] at htarget'
        cases htarget'
        split
        · rfl
        · next hge =>
          rw [Array.getElem?_eq_none (by omega)] at hold
          cases hold
      · exact hold
    · exact .refl f
  · exact .refl f

theorem enters_enterReference (invoker : String) {id : NodeId} (hlt : id < f.targets.size) :
    (enterReference g invoker id f).Enters g id := by
  intro name target hshape htarget
  simp [enterReference, hshape, htarget, target?, hlt]

/-- All nodes that a walk comes to are entered. -/
theorem linksOn_visit (rule : Nat) (name : String) (depth : Nat) (id : NodeId) (parent : Parent) :
    LinksOn g f ((linker g rule name).visit g depth id parent f).2 ∧
      ∀ x ∈ g.preorder depth id, x < f.targets.size →
        ((linker g rule name).visit g depth id parent f).2.Enters g x := by
  induction depth generalizing id parent f with
  | zero => exact ⟨.refl f, nofun⟩
  | succ depth ih =>
    have hnode := linksOn_enterNode (g := g) (f := f) rule id parent
    have hreference :=
      linksOn_enterReference (g := g) (f := enterNode rule id parent f) name id
    have hwalk (ids : List NodeId) (f : Facts) :
        let f' := ids.foldl (fun f child =>
          ((linker g rule name).visit g depth child (.node id) f).2) f
        LinksOn g f f' ∧
          ∀ x ∈ ids.flatMap (g.preorder depth), x < f.targets.size → f'.Enters g x := by
      induction ids generalizing f with
      | nil => exact ⟨.refl f, nofun⟩
      | cons child ids ihids =>
        obtain ⟨hchild, henters⟩ := @ih f child (.node id)
        obtain ⟨hrest, hentersrest⟩ :=
          ihids ((linker g rule name).visit g depth child (.node id) f).2
        refine ⟨hchild.trans hrest, fun x hx hlt => ?_⟩
        rw [List.flatMap_cons, List.mem_append] at hx
        rcases hx with hx | hx
        · exact hrest.enters x (henters x hx hlt)
        · exact hentersrest x hx (hchild.targets ▸ hlt)
    obtain ⟨hchildren, henters⟩ :=
      hwalk (g.children id) (enterReference g name id (enterNode rule id parent f))
    refine ⟨(hnode.trans hreference).trans hchildren, fun x hx hlt => ?_⟩
    rw [Grammar.preorder, List.mem_cons] at hx
    rcases hx with rfl | hx
    · exact hchildren.enters _ (enters_enterReference name hlt)
    · exact henters x hx ((hnode.trans hreference).targets ▸ hlt)

theorem linksOn_visitRule (name : String) (index : Nat) :
    LinksOn g f ((linker g index name).visitRule g index f).2 ∧
      ∀ r, g.rules[index]? = some r → ∀ x ∈ g.preorder g.depthBound r.expression,
        x < f.targets.size → ((linker g index name).visitRule g index f).2.Enters g x := by
  cases hr : g.rules[index]? with
  | none =>
    rw [Visitor.visitRule, hr]
    exact ⟨.refl f, nofun⟩
  | some r =>
    rw [visitRule_linker hr]
    obtain ⟨hlinks, henters⟩ := linksOn_visit index name g.depthBound r.expression (.rule index)
    refine ⟨hlinks, ?_⟩
    rintro r' ⟨⟩
    exact henters

theorem linksOn_linkRules : LinksOn g f (linkRules g f) ∧
    ∀ (index : Nat) (r : Rule), g.rules[index]? = some r →
      ∀ x ∈ g.preorder g.depthBound r.expression, x < f.targets.size →
        (linkRules g f).Enters g x := by
  have hall (rs : List (Rule × Nat)) (f : Facts) :
      let f' := rs.foldl (fun f p => ((linker g p.2 p.1.name).visitRule g p.2 f).2) f
      LinksOn g f f' ∧ ∀ p ∈ rs, ∀ r, g.rules[p.2]? = some r →
        ∀ x ∈ g.preorder g.depthBound r.expression, x < f.targets.size → f'.Enters g x := by
    induction rs generalizing f with
    | nil => exact ⟨.refl f, by rintro p ⟨⟩⟩
    | cons p rs ih =>
      obtain ⟨hfirst, henters⟩ := linksOn_visitRule (g := g) (f := f) p.1.name p.2
      obtain ⟨hrest, hentersrest⟩ := ih ((linker g p.2 p.1.name).visitRule g p.2 f).2
      refine ⟨hfirst.trans hrest, fun q hq r hr x hx hlt => ?_⟩
      rcases List.mem_cons.mp hq with rfl | hq
      · exact hrest.enters x (henters r hr x hx hlt)
      · exact hentersrest q hq r hr x hx (hfirst.targets ▸ hlt)
  obtain ⟨hlinks, henters⟩ := hall g.rules.zipIdx f
  refine ⟨hlinks, fun index r hr => ?_⟩
  have hmem : (r, index) ∈ g.rules.zipIdx := List.mk_mem_zipIdx_iff_getElem?.mpr hr
  exact henters (r, index) hmem r hr

/-! ## Start rules -/

/-- A parse may start from a rule. -/
def Starts (f : Facts) (index : Nat) : Prop :=
  (f.rules[index]?).any (·.starter.isStarter) = true

theorem Starts.markStarters {index : Nat} (h : f.Starts index) (place : Nat) (names : List String) :
    (markStarters g place names f).Starts index := by
  induction names generalizing place f with
  | nil => exact h
  | cons name names ih =>
    rw [Facts.markStarters]
    refine ih ?_ (place + 1)
    split
    · next target htarget =>
      rw [Starts, Array.getElem?_modify]
      split
      · next heq =>
        subst heq
        obtain ⟨r, hr, -⟩ := Option.any_eq_true _ _ |>.mp h
        rw [hr]
        simp only [Option.map_some, Option.any_some]
        split <;> rfl
      · exact h
    · exact h

/-- The rules that a parse may start from are marked. -/
theorem starts_markStarters {names : List String} {name : String} {index : Nat}
    (hname : name ∈ names) (hindex : g.ruleIndex? name = some index)
    (hlt : index < f.rules.size) (place : Nat) :
    (markStarters g place names f).Starts index := by
  induction names generalizing place f with
  | nil => cases hname
  | cons first names ih =>
    rw [Facts.markStarters]
    rcases List.mem_cons.mp hname with rfl | hname
    · refine Starts.markStarters ?_ (place + 1) names
      rw [hindex]
      dsimp only
      rw [Starts, Array.getElem?_modify, if_pos rfl, Array.getElem?_eq_getElem hlt]
      simp only [Option.map_some, Option.any_some]
      split <;> rfl
    · refine ih hname ?_ (place + 1)
      split
      · rwa [Array.size_modify]
      · exact hlt

theorem starters_markStarters (place : Nat) (names : List String) :
    (markStarters g place names f).starters = f.starters :=
  markStarters_rel (R := fun f' _ => f'.starters = f.starters) (fun _ _ _ _ h => h) place names _ f
    rfl

/-! ## Linked facts -/

/-- What is known about a grammar once it was linked. -/
structure Links (f : Facts) (g : Grammar) : Prop where
  rules : f.rules.size = g.rules.length
  refers : f.Refers g
  enters : ∀ (index : Nat) (r : Rule), g.rules[index]? = some r →
    ∀ x ∈ g.preorder g.depthBound r.expression, x < g.nodes.size → f.Enters g x
  starts : ∀ name ∈ f.starters, ∀ index, g.ruleIndex? name = some index → f.Starts index

theorem ruleIndex?_lt {name : String} {index : Nat} (h : g.ruleIndex? name = some index) :
    index < g.rules.length := (List.findIdx?_eq_some_iff_getElem.mp h).1

theorem starters_link (f : Facts) (g : Grammar) (starters : List String) :
    (f.link g starters).starters = starters := by
  rw [link, starters_markStarters, linksOn_linkRules.1.starters]
  rfl

theorem size_rules_markStarters (place : Nat) (names : List String) :
    (markStarters g place names f).rules.size = f.rules.size :=
  markStarters_rel (R := fun f' _ => f'.rules.size = f.rules.size)
    (fun _ _ _ _ h => Array.size_modify.trans h) place names _ f rfl

/-- Linking finds out about the grammar what is to be known. -/
theorem links_link (f : Facts) (g : Grammar) (starters : List String) :
    (f.link g starters).Links g := by
  obtain ⟨hlinks, henters⟩ := linksOn_linkRules (g := g) (f := f.unlinked g starters)
  have hrules : (linkRules g (f.unlinked g starters)).rules.size = g.rules.length := by
    rw [hlinks.rules]
    exact Array.size_ofFn
  refine ⟨(size_rules_markStarters 0 starters).trans hrules, refers_link f g starters,
    fun index r hr x hx hlt name target hshape htarget => ?_, fun name hname index hindex => ?_⟩
  · have hentered := henters index r hr x hx (by simpa [unlinked] using hlt)
    rw [target?, link, targets_markStarters]
    exact hentered name target hshape htarget
  · rw [starters_link] at hname
    refine starts_markStarters hname hindex ?_ 0
    rw [hrules]
    exact ruleIndex?_lt hindex

/-- What is known from linking only depends on three of the tables. -/
theorem Links.congr {f' : Facts} (h : f.Links g) (hrules : f'.rules.size = f.rules.size)
    (htargets : f'.targets = f.targets) (hstarters : f'.starters = f.starters)
    (hstarts : ∀ index, f.Starts index → f'.Starts index) : f'.Links g := by
  refine ⟨hrules.trans h.rules, h.refers.congr htargets,
    fun index r hr x hx hlt name target hshape htarget => ?_, fun name hname index hindex => ?_⟩
  · rw [target?, htargets]
    exact h.enters index r hr x hx hlt name target hshape htarget
  · exact hstarts index (h.starts name (hstarters ▸ hname) index hindex)

/-- The target of a reference below a rule is the rule that it names. -/
theorem Links.target?_eq (h : f.Links g) {index : Nat} {r : Rule} {x : NodeId} {name : String}
    (hr : g.rules[index]? = some r) (htree : g.Tree r.expression)
    (hbelow : g.Below r.expression x) (hshape : g.shape x = .ruleRef name) :
    f.target? x = g.ruleIndex? name := by
  cases htarget : f.target? x with
  | some target => exact (h.refers.resolves x name target hshape htarget).symm
  | none =>
    cases hindex : g.ruleIndex? name with
    | none => rfl
    | some target =>
      have hmem := (Grammar.mem_preorder htree.within).mpr hbelow
      rw [h.enters index r hr x hmem (htree.of_below hbelow).lt_size name target hshape hindex]
        at htarget
      cases htarget

end Facts

end PegMachine
