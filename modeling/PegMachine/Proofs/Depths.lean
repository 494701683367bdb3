import PegMachine.Proofs.Linking
import PegMachine.Proofs.Walks

/-!
# Depths

Linking enters the depth of each node: two for the root of a rule, and one more than that of its
parent for every other node. The depth of a parent is there when its children are entered, and it
stays, since no walk comes to a node twice.
-/

namespace PegMachine

open Visit

namespace Facts

/-- The depth of what hangs on a parent, given the depths of nodes. -/
def depthBelow (depth : Array Nat) : Parent → Nat
  | .rule _ => 2
  | .node p => depth.getD p 0 + 1

/-- The depths after a visit. -/
def deepen (depth : Array Nat) : Visit → Array Nat
  | .enter id parent => depth.setIfInBounds id (depthBelow depth parent)
  | .leave .. => depth

/-- The depths after some visits. -/
def deepenAll (depth : Array Nat) (visits : List Visit) : Array Nat := visits.foldl deepen depth

variable {f : Facts} {g : Grammar} {depth : Array Nat} {visits : List Visit} {parent : Parent}
  {ids : List NodeId} {x : NodeId}

theorem deepenAll_cons (visit : Visit) (rest : List Visit) :
    deepenAll depth (visit :: rest) = deepenAll (deepen depth visit) rest := rfl

theorem deepenAll_append (a b : List Visit) :
    deepenAll depth (a ++ b) = deepenAll (deepenAll depth a) b := List.foldl_append

theorem size_deepenAll : (deepenAll depth visits).size = depth.size := by
  induction visits generalizing depth with
  | nil => rfl
  | cons visit rest ih =>
    rw [deepenAll_cons, ih]
    cases visit with
    | enter id parent => exact Array.size_setIfInBounds
    | leave id parent => rfl

/-- Visits leave the depths of all other nodes alone. -/
theorem deepenAll_of_not_mem (h : x ∉ entered visits) :
    (deepenAll depth visits).getD x 0 = depth.getD x 0 := by
  induction visits generalizing depth with
  | nil => rfl
  | cons visit rest ih =>
    rw [deepenAll_cons]
    cases visit with
    | enter id parent =>
      rw [entered_enter, List.mem_cons, not_or] at h
      rw [ih h.2]
      simp only [deepen, Array.getD_eq_getD_getElem?, Array.getElem?_setIfInBounds,
        if_neg (Ne.symm h.1)]
    | leave id parent => exact ih h

theorem getD_deepen (h : x < depth.size) :
    (deepen depth (.enter x parent)).getD x 0 = depthBelow depth parent := by
  simp only [deepen, Array.getD_eq_getD_getElem?, Array.getElem?_setIfInBounds_self_of_lt h,
    Option.getD_some]

/-- A node is visited with what is below it, and then what comes after it. -/
theorem deepenAll_node {inside rest : List Visit} :
    deepenAll depth (.enter x parent :: (inside ++ .leave x parent :: rest)) =
      deepenAll (deepenAll (deepen depth (.enter x parent)) inside) rest := by
  simp only [deepenAll, List.foldl_cons, List.foldl_append]
  rfl

theorem depthBelow_congr {depth' : Array Nat}
    (h : ∀ p, parent = .node p → depth'.getD p 0 = depth.getD p 0) :
    depthBelow depth' parent = depthBelow depth parent := by
  cases parent with
  | rule index => rfl
  | node p => exact congrArg (· + 1) (h p rfl)

end Facts

open Facts

namespace Grammar.Visits

variable {g : Grammar} {depth : Array Nat} {visits : List Visit} {parent : Parent}
  {ids : List NodeId} {x : NodeId}

theorem mem_entered (h : g.Visits parent ids visits) (hx : x ∈ ids) : x ∈ entered visits := by
  induction h with
  | nil => cases hx
  | node _ _ _ ihmore =>
    rcases List.mem_cons.mp hx with rfl | hx
    · exact List.mem_cons_self
    · rw [entered_enter, entered_append, entered_leave]
      exact List.mem_cons_of_mem _ (List.mem_append_right _ (ihmore hx))

/-- What hangs on a node that is entered is entered as well. -/
theorem child_mem_entered (h : g.Visits parent ids visits) {p : NodeId} (hp : p ∈ entered visits)
    (hx : x ∈ g.children p) : x ∈ entered visits := by
  induction h with
  | nil => cases hp
  | node children _ ihchildren ihmore =>
    rw [entered_enter, entered_append, entered_leave] at hp ⊢
    refine List.mem_cons_of_mem _ (List.mem_append.mpr ?_)
    rcases List.mem_cons.mp hp with rfl | hp
    · exact .inl (children.mem_entered hx)
    · exact (List.mem_append.mp hp).imp ihchildren ihmore

/-- Nodes that hang on a parent get the depth below it. -/
theorem deepenAll_eq (h : g.Visits parent ids visits) (hnodup : (entered visits).Nodup)
    (hlt : ∀ x ∈ entered visits, x < depth.size)
    (hparent : ∀ p, parent = .node p → p ∉ entered visits) (hx : x ∈ ids) :
    (deepenAll depth visits).getD x 0 = depthBelow depth parent := by
  induction h generalizing depth with
  | nil => cases hx
  | @node parent id ids inside rest _ more _ ihmore =>
    simp only [entered_enter, entered_append, entered_leave, List.nodup_cons, List.mem_cons,
      List.mem_append, List.nodup_append] at hnodup hlt hparent
    obtain ⟨hid, -, hrest, -⟩ := hnodup
    rw [not_or] at hid
    rw [deepenAll_node]
    -- What is visited inside and afterwards is neither the node nor its parent.
    rcases List.mem_cons.mp hx with rfl | hx
    · rw [deepenAll_of_not_mem hid.2, deepenAll_of_not_mem hid.1, getD_deepen (hlt _ (.inl rfl))]
    · rw [ihmore hrest (fun y hy => ?_) (fun p hp hmem => hparent p hp (.inr (.inr hmem))) hx]
      · refine depthBelow_congr fun p hp => ?_
        have hno := hparent p hp
        rw [not_or, not_or] at hno
        have hself : p ∉ entered [.enter id parent] := fun hmem =>
          hno.1 (List.mem_singleton.mp hmem)
        rw [deepenAll_of_not_mem hno.2.1]
        exact deepenAll_of_not_mem hself
      · rw [size_deepenAll, deepen, Array.size_setIfInBounds]
        exact hlt y (.inr (.inr hy))

/-- Visits make nodes one deeper than the nodes that they hang on. -/
theorem deepenAll_child (h : g.Visits parent ids visits) (hnodup : (entered visits).Nodup)
    (hlt : ∀ x ∈ entered visits, x < depth.size)
    (hparent : ∀ p, parent = .node p → p ∉ entered visits) {p : NodeId} (hp : p ∈ entered visits)
    (hx : x ∈ g.children p) :
    (deepenAll depth visits).getD x 0 = (deepenAll depth visits).getD p 0 + 1 := by
  induction h generalizing depth with
  | nil => cases hp
  | @node parent id ids inside rest children more ihchildren ihmore =>
    simp only [entered_enter, entered_append, entered_leave, List.nodup_cons, List.mem_cons,
      List.mem_append, List.nodup_append] at hnodup hlt hparent hp
    obtain ⟨hid, hinside, hrest, hapart⟩ := hnodup
    rw [not_or] at hid
    have hltInside : ∀ y ∈ entered inside, y < (deepen depth (.enter id parent)).size := by
      intro y hy
      rw [deepen, Array.size_setIfInBounds]
      exact hlt y (.inr (.inl hy))
    have hbelow : ∀ q, Parent.node id = .node q → q ∉ entered inside := by
      rintro q ⟨⟩
      exact hid.1
    rw [deepenAll_node]
    -- The parent is the node itself, or inside, or comes afterwards; its child is visited next to it.
    rcases hp with rfl | hp | hp
    · have hxInside := children.mem_entered hx
      rw [deepenAll_of_not_mem fun hmem => hapart x hxInside x hmem rfl,
        deepenAll_of_not_mem hid.2, deepenAll_of_not_mem hid.1,
        children.deepenAll_eq hinside hltInside hbelow hx]
      rfl
    · have hxInside := children.child_mem_entered hp hx
      rw [deepenAll_of_not_mem fun hmem => hapart x hxInside x hmem rfl,
        deepenAll_of_not_mem fun hmem => hapart p hp p hmem rfl]
      exact ihchildren hinside hltInside hbelow hp
    · refine ihmore hrest (fun y hy => ?_) (fun q hq hmem => hparent q hq (.inr (.inr hmem))) hp
      rw [size_deepenAll, deepen, Array.size_setIfInBounds]
      exact hlt y (.inr (.inr hy))

end Grammar.Visits

namespace Facts

variable {f : Facts} {g : Grammar}

/-! ## Linking -/

theorem depth_enterReference (invoker : String) (id : NodeId) :
    (enterReference g invoker id f).depth = f.depth := by
  unfold enterReference
  split
  · split <;> rfl
  · rfl

/-- The visits of a rule enter the depths of its nodes. -/
theorem depth_visitRule {index : Nat} {r : Rule} (hr : g.rules[index]? = some r) (name : String) :
    ((linker g index name).visitRule g index f).2.depth = deepenAll f.depth (g.visitsOf index) := by
  have hgoes : (linker g index name).GoesOn fun id _ f => enterReference g name id f := rfl
  have hact (f : Facts) (visit : Visit) : deepen f.depth visit =
      ((linker g index name).act (fun id _ f => enterReference g name id f) f visit).depth := by
    cases visit with
    | enter id parent =>
      refine Eq.trans ?_ (depth_enterReference name id).symm
      cases parent <;> rfl
    | leave id parent => rfl
  rw [visitRule_linker hr, Grammar.visit_eq_foldl hgoes, Grammar.visitsOf_eq, Grammar.root?, hr,
    Option.map_some, Option.toList_some, List.flatMap_singleton]
  exact (List.foldl_hom Facts.depth hact).symm

/-- Linking enters the depths of the nodes of all rules, one rule after another. -/
theorem depth_linkRules (f : Facts) : (linkRules g f).depth =
    deepenAll f.depth ((List.range g.rules.length).flatMap g.visitsOf) := by
  have hall (rs : List (Rule × Nat)) (hrs : ∀ p ∈ rs, g.rules[p.2]? = some p.1) (f : Facts) :
      (rs.foldl (fun f p => ((linker g p.2 p.1.name).visitRule g p.2 f).2) f).depth =
        deepenAll f.depth ((rs.map (·.2)).flatMap g.visitsOf) := by
    induction rs generalizing f with
    | nil => rfl
    | cons p rest ih =>
      obtain ⟨hp, hrest⟩ := List.forall_mem_cons.mp hrs
      rw [List.foldl_cons, ih hrest, depth_visitRule hp, List.map_cons, List.flatMap_cons,
        deepenAll_append]
  have hrules := hall g.rules.zipIdx (fun p hp => List.mk_mem_zipIdx_iff_getElem?.mp hp) f
  rw [List.zipIdx_map_snd, ← List.range_eq_range'] at hrules
  exact hrules

theorem depth_markStarters (place : Nat) (names : List String) :
    (markStarters g place names f).depth = f.depth :=
  markStarters_rel (R := fun f' _ => f'.depth = f.depth) (fun _ _ _ _ h => h) place names _ f rfl

/-- Depths are counted from the roots of rules. -/
structure Deep (f : Facts) (g : Grammar) : Prop where
  root : ∀ r ∈ g.rules, f.depth.getD r.expression 0 = 2
  child : ∀ p, ∀ e ∈ g.children p, f.depth.getD e 0 = f.depth.getD p 0 + 1

/-- Visits of several rules that share no node give all of their nodes the right depth. -/
theorem deepenAll_visitsOf (htrees : g.HasTrees) (rules : List Nat) (depth : Array Nat)
    (hsize : depth.size = g.nodes.size)
    (hnodup : (Visit.entered (rules.flatMap g.visitsOf)).Nodup) :
    (∀ i ∈ rules, ∀ x ∈ g.root? i,
      (deepenAll depth (rules.flatMap g.visitsOf)).getD x 0 = 2) ∧
    ∀ p ∈ Visit.entered (rules.flatMap g.visitsOf), ∀ e ∈ g.children p,
      (deepenAll depth (rules.flatMap g.visitsOf)).getD e 0 =
        (deepenAll depth (rules.flatMap g.visitsOf)).getD p 0 + 1 := by
  induction rules generalizing depth with
  | nil => exact ⟨nofun, nofun⟩
  | cons i rest ih =>
    obtain ⟨hentered, hvisits⟩ := htrees.visitsOf i
    rw [List.flatMap_cons, entered_append, List.nodup_append] at hnodup
    obtain ⟨hfirst, hnodupRest, hapart⟩ := hnodup
    have hlt : ∀ x ∈ entered (g.visitsOf i), x < depth.size := by
      intro x hx
      rw [hsize]
      exact htrees.lt_of_mem_ruleNodes (hentered ▸ hx)
    have hno : ∀ p, Parent.rule i = .node p → p ∉ entered (g.visitsOf i) := nofun
    obtain ⟨hroots, hchildren⟩ :=
      ih (deepenAll depth (g.visitsOf i)) (size_deepenAll.trans hsize) hnodupRest
    rw [List.flatMap_cons, deepenAll_append]
    refine ⟨fun j hj x hx => ?_, fun p hp e he => ?_⟩
    · rcases List.mem_cons.mp hj with rfl | hj
      · have hx := Option.mem_toList.mpr hx
        have hmem := hvisits.mem_entered hx
        rw [deepenAll_of_not_mem fun h => hapart x hmem x h rfl]
        exact hvisits.deepenAll_eq hfirst hlt hno hx
      · exact hroots j hj x hx
    · rw [entered_append, List.mem_append] at hp
      rcases hp with hp | hp
      · have hmem := hvisits.child_mem_entered hp he
        rw [deepenAll_of_not_mem fun h => hapart e hmem e h rfl,
          deepenAll_of_not_mem fun h => hapart p hp p h rfl]
        exact hvisits.deepenAll_child hfirst hlt hno hp he
      · exact hchildren p hp e he

/-- Linking a flattened grammar finds the depths of its nodes. -/
theorem deep_link (f : Facts) (hforest : g.Forest) (hordered : g.Ordered) (htrees : g.HasTrees)
    (starters : List String) : (f.link g starters).Deep g := by
  have hentered : entered ((List.range g.rules.length).flatMap g.visitsOf) = g.allNodes := by
    rw [entered_flatMap, Grammar.allNodes]
    exact List.flatMap_congr fun rule _ => (htrees.visitsOf rule).1
  have hdepth : (f.link g starters).depth = deepenAll (Array.replicate g.nodes.size 0)
      ((List.range g.rules.length).flatMap g.visitsOf) := by
    rw [link, depth_markStarters, depth_linkRules]
    rfl
  obtain ⟨hroots, hchildren⟩ := deepenAll_visitsOf htrees (List.range g.rules.length)
    (Array.replicate g.nodes.size 0) Array.size_replicate
    (hentered ▸ hforest.nodup_allNodes htrees)
  refine ⟨fun r hr => ?_, fun p e he => ?_⟩
  · obtain ⟨i, hi, rfl⟩ := List.getElem_of_mem hr
    rw [hdepth]
    refine hroots i (List.mem_range.mpr hi) _ ?_
    rw [Grammar.root?, List.getElem?_eq_getElem hi]
    rfl
  · have hlt : p < g.nodes.size := by
      by_contra hge
      rw [Grammar.children_of_size_le (Nat.not_lt.mp hge)] at he
      cases he
    rw [hdepth]
    refine hchildren p ?_ e he
    rw [hentered, htrees.mem_allNodes]
    exact hforest.owned hordered hlt

end Facts

end PegMachine
