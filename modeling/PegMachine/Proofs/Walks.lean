import PegMachine.Proofs.Forests
import PegMachine.Proofs.ReadingBack

/-!
# Walks over a flattened grammar

There are two walks over the nodes of a rule. One keeps the nodes that are still to be visited on a
stack; the other one is that of visitors, which enter a node, visit its children, and leave it again.
Both come to the same nodes in the same order. Flattening makes a forest, so both come to every node
of the tree of a rule once, and the trees of all rules together are the arena.
-/

namespace PegMachine

/-- What a visitor does with a node. -/
inductive Visit where
  /-- It comes to the node from what the node hangs on. -/
  | enter (id : NodeId) (parent : Parent)
  /-- It is done with the node and what is below it. -/
  | leave (id : NodeId) (parent : Parent)
  deriving DecidableEq, Repr

namespace Visit

/-- The node that is entered. -/
def entered? : Visit → Option NodeId
  | .enter id _ => some id
  | .leave .. => none

/-- The nodes that are entered. -/
def entered (visits : List Visit) : List NodeId := visits.filterMap entered?

@[simp]
theorem entered_nil : entered [] = [] := rfl

@[simp]
theorem entered_enter (id : NodeId) (parent : Parent) (visits : List Visit) :
    entered (.enter id parent :: visits) = id :: entered visits := rfl

@[simp]
theorem entered_leave (id : NodeId) (parent : Parent) (visits : List Visit) :
    entered (.leave id parent :: visits) = entered visits := rfl

@[simp]
theorem entered_append (a b : List Visit) : entered (a ++ b) = entered a ++ entered b :=
  List.filterMap_append

theorem entered_flatMap {α : Type} (f : α → List Visit) (l : List α) :
    entered (l.flatMap f) = l.flatMap fun a => entered (f a) := List.filterMap_flatMap

end Visit

namespace Visitor

variable {σ α : Type}

/-- A visitor goes on to the children of each node after it has handled the node itself. -/
def GoesOn (v : Visitor σ α) (handle : NodeId → Parent → σ → σ) : Prop :=
  v.inside = fun _ walkChildren id parent s => (v.default, walkChildren (handle id parent s))

/-- What a visitor that goes on to all children does at a visit. -/
def act (v : Visitor σ α) (handle : NodeId → Parent → σ → σ) (s : σ) : Visit → σ
  | .enter id parent => handle id parent (v.before id parent s)
  | .leave id parent => (v.after id parent v.default s).2

/-- The visitor that writes down its visits. -/
def recorder : Visitor (List Visit) Unit where
  default := ()
  before := fun id parent visits => visits ++ [.enter id parent]
  after := fun id parent _ visits => ((), visits ++ [.leave id parent])

theorem goesOn_recorder : recorder.GoesOn fun _ _ visits => visits := rfl

theorem foldl_recorder (visits : List Visit) (before : List Visit) :
    visits.foldl (recorder.act fun _ _ visits => visits) before = before ++ visits := by
  have hact : recorder.act (fun _ _ visits => visits) = fun before x => before ++ [x] := by
    funext before x
    cases x <;> rfl
  rw [hact, List.foldl_append_eq_append, ← List.flatMap_def, List.flatMap_singleton']

end Visitor

namespace Grammar

variable {g : Grammar} {depth : Nat} {id : NodeId} {parent : Parent}

/-! ## The visits of a tree -/

/-- The visits of a node and of what is below it, given a bound on the depth. -/
def visitsBelow (g : Grammar) : Nat → Parent → NodeId → List Visit
  | 0, _, _ => []
  | depth + 1, parent, id =>
    .enter id parent ::
      ((g.children id).flatMap (visitsBelow g depth (.node id)) ++ [.leave id parent])

/-- The visits of nodes that hang on the same thing: one after the other, each node is entered, its
children are visited, and the node is left. -/
inductive Visits (g : Grammar) : Parent → List NodeId → List Visit → Prop where
  | nil (parent : Parent) : g.Visits parent [] []
  | node {parent : Parent} {id : NodeId} {ids : List NodeId} {inside rest : List Visit}
    (children : g.Visits (.node id) (g.children id) inside) (more : g.Visits parent ids rest) :
    g.Visits parent (id :: ids) (.enter id parent :: (inside ++ .leave id parent :: rest))

/-- Whatever a visitor does at its visits, it does at these. -/
theorem visit_eq_foldl {σ α : Type} {v : Visitor σ α} {handle : NodeId → Parent → σ → σ}
    (h : v.GoesOn handle) (depth : Nat) (id : NodeId) (parent : Parent) (s : σ) :
    (v.visit g depth id parent s).2 = (g.visitsBelow depth parent id).foldl (v.act handle) s := by
  induction depth generalizing id parent s with
  | zero => rfl
  | succ depth ih =>
    have hchildren (ids : List NodeId) (s : σ) :
        ids.foldl (fun s child => (v.visit g depth child (.node id) s).2) s =
          (ids.flatMap (g.visitsBelow depth (.node id))).foldl (v.act handle) s := by
      induction ids generalizing s with
      | nil => rfl
      | cons child rest ihrest =>
        rw [List.foldl_cons, List.flatMap_cons, List.foldl_append, ih, ihrest]
    rw [Visitor.visit, h, visitsBelow, List.foldl_cons, List.foldl_append, ← hchildren]
    rfl

theorem entered_visitsBelow (depth : Nat) (parent : Parent) (id : NodeId) :
    Visit.entered (g.visitsBelow depth parent id) = g.preorder depth id := by
  induction depth generalizing id parent with
  | zero => rfl
  | succ depth ih =>
    rw [visitsBelow, preorder, Visit.entered_enter, Visit.entered_append, Visit.entered_flatMap]
    simp only [ih]
    exact congrArg (id :: ·) (List.append_nil _)

theorem Visits.append {ids ids' : List NodeId} {a b : List Visit} (ha : g.Visits parent ids a)
    (hb : g.Visits parent ids' b) : g.Visits parent (ids ++ ids') (a ++ b) := by
  induction ha with
  | nil => exact hb
  | node children _ _ ihmore =>
    rw [List.cons_append, List.cons_append, List.append_assoc, List.cons_append]
    exact .node children (ihmore hb)

theorem Within.visits (h : g.Within depth id) (parent : Parent) :
    g.Visits parent [id] (g.visitsBelow depth parent id) := by
  induction depth generalizing id parent with
  | zero => exact h.elim
  | succ depth ih =>
    have hchildren (ids : List NodeId) (hids : ∀ e ∈ ids, g.Within depth e) :
        g.Visits (.node id) ids (ids.flatMap (g.visitsBelow depth (.node id))) := by
      induction ids with
      | nil => exact .nil _
      | cons e rest ihrest =>
        obtain ⟨he, hrest⟩ := List.forall_mem_cons.mp hids
        exact (ih he (.node id)).append (ihrest hrest)
    exact .node (hchildren _ h.2) (.nil parent)

/-! ## Rules -/

/-- The root of a rule, if there is such a rule. -/
def root? (g : Grammar) (rule : Nat) : Option NodeId := (g.rules[rule]?).map (·.expression)

/-- What a visitor does with a rule when it does nothing else. -/
def visitsOf (g : Grammar) (rule : Nat) : List Visit := (Visitor.recorder.visitRule g rule []).2

theorem visitsOf_eq (rule : Nat) : g.visitsOf rule =
    (g.root? rule).toList.flatMap (g.visitsBelow g.depthBound (.rule rule)) := by
  rw [visitsOf, root?, Visitor.visitRule]
  cases g.rules[rule]? with
  | none => rfl
  | some r =>
    have hannotations : r.annotations.foldl (fun visits a =>
        Visitor.recorder.afterAnnotation rule a (Visitor.recorder.beforeAnnotation rule a visits))
        [] = [] := List.foldl_fixed _
    dsimp only
    rw [hannotations, visit_eq_foldl Visitor.goesOn_recorder, Visitor.foldl_recorder]
    simp

/-- Both walks over a rule come to the same nodes in the same order, and the nodes of a visitor are
the brackets of the tree. -/
theorem HasTrees.visitsOf (h : g.HasTrees) (rule : Nat) :
    Visit.entered (g.visitsOf rule) = g.ruleNodes rule ∧
      g.Visits (.rule rule) (g.root? rule).toList (g.visitsOf rule) := by
  rw [visitsOf_eq, root?]
  cases hr : g.rules[rule]? with
  | none => exact ⟨by simp [ruleNodes, hr], .nil _⟩
  | some r =>
    have htree := h r (List.mem_of_getElem? hr)
    rw [Option.map_some, Option.toList_some, List.flatMap_singleton, entered_visitsBelow,
      ruleNodes_eq hr htree]
    exact ⟨rfl, htree.within.visits _⟩

/-- In a forest whose children come before their parents every node belongs to a rule: the way up
ends at a root. -/
theorem Forest.owned (h : g.Forest) (hordered : g.Ordered) (hlt : id < g.nodes.size) :
    g.Owned id := by
  induction hn : g.nodes.size - id using Nat.strong_induction_on generalizing id with
  | _ n ih =>
    have hmem := (h.mem_iff (a := id)).mpr (List.mem_range.mpr hlt)
    rcases List.mem_append.mp hmem with hroot | hhung
    · obtain ⟨r, hr, rfl⟩ := List.mem_map.mp hroot
      exact ⟨r, hr, .refl⟩
    · obtain ⟨p, hp, hid⟩ := List.mem_flatMap.mp hhung
      have hup := List.mem_range.mp hp
      have hless := Nat.sub_lt_sub_left hlt (hordered p hup id hid)
      exact (ih (g.nodes.size - p) (hn ▸ hless) hup rfl).child hid

theorem HasTrees.mem_allNodes (h : g.HasTrees) : id ∈ g.allNodes ↔ g.Owned id := by
  rw [h.allNodes_eq, List.mem_flatMap]
  constructor
  · rintro ⟨_, hroot, hid⟩
    obtain ⟨r, hr, rfl⟩ := List.mem_map.mp hroot
    exact ⟨r, hr, (mem_preorder (h r hr).within).mp hid⟩
  · rintro ⟨r, hr, hbelow⟩
    exact ⟨_, List.mem_map_of_mem hr, (mem_preorder (h r hr).within).mpr hbelow⟩

theorem HasTrees.lt_of_mem_ruleNodes (h : g.HasTrees) {rule : Nat} (hid : id ∈ g.ruleNodes rule) :
    id < g.nodes.size := by
  cases hr : g.rules[rule]? with
  | none => simp [ruleNodes, hr] at hid
  | some r =>
    have htree := h r (List.mem_of_getElem? hr)
    exact (htree.of_below ((mem_ruleNodes hr htree).mp hid)).lt_size

/-- The nodes of all rules are the arena, each of them once. -/
theorem Forest.allNodes_perm (h : g.Forest) (hordered : g.Ordered) (htrees : g.HasTrees) :
    g.allNodes.Perm (List.range g.nodes.size) := by
  refine (List.perm_ext_iff_of_nodup (h.nodup_allNodes htrees) List.nodup_range).mpr fun id => ?_
  rw [htrees.mem_allNodes, List.mem_range]
  exact ⟨fun hid => (htrees.tree hid).lt_size, fun hlt => h.owned hordered hlt⟩

theorem nodup_ruleNodes (h : g.allNodes.Nodup) (rule : Nat) : (g.ruleNodes rule).Nodup := by
  by_cases hlt : rule < g.rules.length
  · exact (List.nodup_flatMap.mp h).1 rule (List.mem_range.mpr hlt)
  · rw [ruleNodes, List.getElem?_eq_none (Nat.not_lt.mp hlt)]
    exact List.nodup_nil

/-- A grammar that was written down becomes an arena in which children come before their parents and
every node is the root of just one rule or hangs on just one node, and that reads back as what was
written down. The walk with a stack comes to just the nodes that a visitor enters, in the same order
and to none twice; the visitor leaves them as brackets are closed. Rule by rule, the walk comes to
every node of the arena once. -/
theorem ofSource_walks (source : GrammarSource) :
    let g := ofSource source
    g.Ordered ∧ g.Forest ∧ g.toSource = source.filled ∧
    (∀ rule, Visit.entered (g.visitsOf rule) = g.ruleNodes rule ∧
      (g.ruleNodes rule).Nodup ∧
      g.Visits (.rule rule) (g.root? rule).toList (g.visitsOf rule)) ∧
    ((List.range g.rules.length).flatMap g.ruleNodes).Perm (List.range g.nodes.size) := by
  intro g
  have hordered := (ofSource_flattened source).ordered
  have hforest := ofSource_forest source
  have htrees := ofSource_hasTrees source
  refine ⟨hordered, hforest, toSource_ofSource source, fun rule => ?_,
    hforest.allNodes_perm hordered htrees⟩
  obtain ⟨hentered, hvisits⟩ := htrees.visitsOf rule
  exact ⟨hentered, nodup_ruleNodes (hforest.nodup_allNodes htrees) rule, hvisits⟩

end Grammar

end PegMachine
