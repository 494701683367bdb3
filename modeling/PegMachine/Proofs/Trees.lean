import Mathlib.Data.Finset.Card
import Mathlib.Logic.Relation
import PegMachine.Facts
import PegMachine.Grammar.Expr

/-!
# Trees in an arena

The nodes below a node of an arena are a tree if all of them are in the arena and none contains
itself. Walks down such a tree stay within the bound that passes put on their depth, so passes see
all of it. Flattening nested expressions gives nothing but trees.
-/

namespace PegMachine

namespace Grammar

/-- The nodes below a node are in the arena, and walks down from it come to an end. -/
inductive Tree (g : Grammar) : NodeId → Prop where
  | node {id : NodeId} (hlt : id < g.nodes.size) (hchildren : ∀ e ∈ g.children id, g.Tree e) :
    g.Tree id

/-- There is a tree below the root of every rule. -/
def HasTrees (g : Grammar) : Prop := ∀ r ∈ g.rules, g.Tree r.expression

/-- A node is below another one, or is that node. -/
def Below (g : Grammar) : NodeId → NodeId → Prop := Relation.ReflTransGen fun a b => b ∈ g.children a

/-- The nodes below a node are in the arena, and walks down from it take so many steps at most. -/
def Within (g : Grammar) : Nat → NodeId → Prop
  | 0, _ => False
  | depth + 1, id => id < g.nodes.size ∧ ∀ e ∈ g.children id, g.Within depth e

variable {g : Grammar} {id x : NodeId} {depth depth' : Nat}

theorem Within.mono (h : g.Within depth id) (hle : depth ≤ depth') : g.Within depth' id := by
  induction depth generalizing id depth' with
  | zero => exact h.elim
  | succ depth ih =>
    cases depth' with
    | zero => cases hle
    | succ depth' => exact ⟨h.1, fun e he => ih (h.2 e he) (Nat.le_of_succ_le_succ hle)⟩

theorem Within.exists_succ (h : g.Within depth id) : ∃ depth', depth = depth' + 1 := by
  cases depth with
  | zero => exact h.elim
  | succ depth => exact ⟨depth, rfl⟩

theorem Tree.of_below (h : g.Tree id) (hbelow : g.Below id x) : g.Tree x := by
  induction hbelow with
  | refl => exact h
  | tail _ hchild ih =>
    cases ih with
    | node _ hchildren => exact hchildren _ hchild

theorem Tree.lt_size (h : g.Tree id) : id < g.nodes.size := by
  cases h with
  | node hlt _ => exact hlt

/-- No node of a tree contains itself. -/
theorem Tree.not_transGen (h : g.Tree id) :
    ¬Relation.TransGen (fun a b => b ∈ g.children a) id id := by
  induction h with
  | node _ _ ih =>
    intro hcycle
    obtain ⟨e, he, hback⟩ := Relation.TransGen.head'_iff.mp hcycle
    exact ih e he (Relation.TransGen.tail' hback he)

/-- On the way down to a node no node is passed twice, so there are only as many steps left as there
are nodes that were not passed. -/
theorem Tree.within_of_passed (h : g.Tree id) (passed : Finset NodeId)
    (hpassed : ∀ a ∈ passed, a < g.nodes.size ∧
      Relation.TransGen (fun a b => b ∈ g.children a) a id) :
    g.Within (g.nodes.size + 1 - passed.card) id := by
  induction h generalizing passed with
  | node hlt hchildren ih =>
    next id =>
    have hnode : g.Tree id := .node hlt hchildren
    have hnew : id ∉ passed := fun hmem => hnode.not_transGen (hpassed id hmem).2
    have hsub : insert id passed ⊆ Finset.range g.nodes.size := by
      intro a ha
      rw [Finset.mem_range]
      rcases Finset.mem_insert.mp ha with rfl | ha
      · exact hlt
      · exact (hpassed a ha).1
    have hcard := Finset.card_le_card hsub
    rw [Finset.card_insert_of_notMem hnew, Finset.card_range] at hcard
    obtain ⟨d, hd⟩ : ∃ d, g.nodes.size + 1 - passed.card = d + 1 :=
      ⟨g.nodes.size - passed.card, by omega⟩
    rw [hd]
    refine ⟨hlt, fun e he => ?_⟩
    have hchild := ih e he (insert id passed) fun a ha => by
      rcases Finset.mem_insert.mp ha with rfl | ha
      · exact ⟨hlt, .single he⟩
      · exact ⟨(hpassed a ha).1, (hpassed a ha).2.tail he⟩
    rw [Finset.card_insert_of_notMem hnew] at hchild
    exact hchild.mono (by omega)

/-- Walks down a tree stay within the bound on their depth. -/
theorem Tree.within (h : g.Tree id) : g.Within g.depthBound id := by
  have := h.within_of_passed ∅ (by simp)
  rwa [Finset.card_empty] at this

theorem Within.tree (h : g.Within depth id) : g.Tree id := by
  induction depth generalizing id with
  | zero => exact h.elim
  | succ depth ih => exact .node h.1 fun e he => ih (h.2 e he)

/-- A tree stays one where its nodes keep their children. -/
theorem Tree.congr {g' : Grammar} (hsize : g.nodes.size ≤ g'.nodes.size)
    (hchildren : ∀ id < g.nodes.size, g'.children id = g.children id) (h : g.Tree id) :
    g'.Tree id := by
  induction h with
  | node hlt _ ih =>
    refine .node (Nat.lt_of_lt_of_le hlt hsize) fun e he => ih e ?_
    rwa [hchildren _ hlt] at he

/-! ## The nodes of a rule -/

/-- A node belongs to a rule. -/
def Owned (g : Grammar) (id : NodeId) : Prop := ∃ r ∈ g.rules, g.Below r.expression id

theorem Owned.child {e : NodeId} (h : g.Owned id) (he : e ∈ g.children id) : g.Owned e := by
  obtain ⟨r, hr, hbelow⟩ := h
  exact ⟨r, hr, hbelow.tail he⟩

theorem HasTrees.tree (h : g.HasTrees) (hid : g.Owned id) : g.Tree id := by
  obtain ⟨r, hr, hbelow⟩ := hid
  exact (h r hr).of_below hbelow

/-- The nodes that a walk comes to, parents first, given a bound on the depth. -/
def preorder (g : Grammar) : Nat → NodeId → List NodeId
  | 0, _ => []
  | depth + 1, id => id :: (g.children id).flatMap (preorder g depth)

theorem walkSize_eq (g : Grammar) (depth : Nat) (id : NodeId) :
    g.walkSize depth id = (g.preorder depth id).length := by
  induction depth generalizing id with
  | zero => rfl
  | succ depth ih =>
    have hsum (es : List NodeId) (n : Nat) :
        es.foldl (fun n child => n + g.walkSize depth child) n =
          n + (es.flatMap (g.preorder depth)).length := by
      induction es generalizing n with
      | nil => rfl
      | cons e es ihes =>
        rw [List.foldl_cons, ihes, ih, List.flatMap_cons, List.length_append, Nat.add_assoc]
    rw [walkSize, hsum, preorder, List.length_cons, Nat.add_comm]

/-- A walk of a tree comes to the nodes of the tree and goes on with what is left on the stack. -/
theorem walkStack_preorder (h : g.Within depth id) (n : Nat) (stack : List NodeId) :
    g.walkStack ((g.preorder depth id).length + n) (id :: stack) =
      g.preorder depth id ++ g.walkStack n stack := by
  induction depth generalizing id n stack with
  | zero => exact h.elim
  | succ depth ih =>
    have hall (es : List NodeId) (hes : ∀ e ∈ es, g.Within depth e) :
        g.walkStack ((es.flatMap (g.preorder depth)).length + n) (es ++ stack) =
          es.flatMap (g.preorder depth) ++ g.walkStack n stack := by
      induction es with
      | nil => simp
      | cons e es ihes =>
        rw [List.flatMap_cons, List.length_append, List.cons_append, Nat.add_assoc,
          ih (hes e List.mem_cons_self), ihes fun e he => hes e (List.mem_cons_of_mem _ he),
          List.append_assoc]
    rw [preorder, List.length_cons, Nat.add_right_comm, walkStack, hall _ h.2, List.cons_append]

/-- A walk comes to every node below. -/
theorem mem_preorder (h : g.Within depth id) : x ∈ g.preorder depth id ↔ g.Below id x := by
  induction depth generalizing id with
  | zero => exact h.elim
  | succ depth ih =>
    rw [preorder, List.mem_cons, List.mem_flatMap, Below, Relation.ReflTransGen.cases_head_iff]
    constructor
    · rintro (rfl | ⟨e, he, hx⟩)
      · exact .inl rfl
      · exact .inr ⟨e, he, (ih (h.2 e he)).mp hx⟩
    · rintro (rfl | ⟨e, he, hx⟩)
      · exact .inl rfl
      · exact .inr ⟨e, he, (ih (h.2 e he)).mpr hx⟩

/-- The nodes of a rule are those of the tree below its root. -/
theorem ruleNodes_eq {index : Nat} {r : Rule} (hr : g.rules[index]? = some r)
    (h : g.Tree r.expression) : g.ruleNodes index = g.preorder g.depthBound r.expression := by
  have hwalk := walkStack_preorder h.within 0 []
  rw [Nat.add_zero] at hwalk
  rw [ruleNodes, hr]
  dsimp only
  rw [walkSize_eq, hwalk]
  cases hnil : g.preorder g.depthBound r.expression <;> simp [walkStack]

theorem mem_ruleNodes {index : Nat} {r : Rule} (hr : g.rules[index]? = some r)
    (h : g.Tree r.expression) : x ∈ g.ruleNodes index ↔ g.Below r.expression x := by
  rw [ruleNodes_eq hr h, mem_preorder h.within]

/-! ## Flattening -/

/-- Children come before their parents, as they do where expressions are flattened. -/
def Ordered (g : Grammar) : Prop := ∀ id < g.nodes.size, ∀ e ∈ g.children id, e < id

theorem Ordered.tree (h : g.Ordered) (hlt : id < g.nodes.size) : g.Tree id := by
  induction id using Nat.strong_induction_on with
  | _ id ih => exact .node hlt fun e he => ih e (h id hlt e he) ((h id hlt e he).trans hlt)

/-- There is nothing outside the arena. -/
theorem shape_of_size_le {id : NodeId} (h : g.nodes.size ≤ id) : g.shape id = .epsilon := by
  rw [shape, node, Array.getD_eq_getD_getElem?, Array.getElem?_eq_none h]
  rfl

theorem children_of_size_le {id : NodeId} (h : g.nodes.size ≤ id) : g.children id = [] := by
  rw [children, shape_of_size_le h]
  rfl

/-- A grammar goes on to another one, which has more nodes. They are above one another, and not
above the nodes from before. -/
structure Grows (g g' : Grammar) : Prop where
  rules : g'.rules = g.rules
  initializer : g'.initializer = g.initializer
  size_le : g.nodes.size ≤ g'.nodes.size
  ordered : g.Ordered → g'.Ordered
  kept : ∀ id < g.nodes.size, g'.node id = g.node id
  fresh : ∀ id, g.nodes.size ≤ id → ∀ e ∈ g'.children id, g.nodes.size ≤ e

theorem Grows.shape_eq {g' : Grammar} (h : g.Grows g') (hlt : id < g.nodes.size) :
    g'.shape id = g.shape id := congrArg Node.shape (h.kept id hlt)

theorem Grows.refl (g : Grammar) : g.Grows g := by
  refine ⟨rfl, rfl, Nat.le_refl _, id, fun _ _ => rfl, fun id hle e he => ?_⟩
  rw [children_of_size_le hle] at he
  cases he

theorem Grows.trans {g g' g'' : Grammar} (h : g.Grows g') (h' : g'.Grows g'') : g.Grows g'' := by
  refine ⟨h'.rules.trans h.rules, h'.initializer.trans h.initializer, h.size_le.trans h'.size_le,
    fun hg => h'.ordered (h.ordered hg), fun id hlt => ?_, fun id hle e he => ?_⟩
  · rw [h'.kept id (hlt.trans_le h.size_le), h.kept id hlt]
  · rcases Nat.lt_or_ge id g'.nodes.size with hlt | hge
    · rw [children, h'.shape_eq hlt] at he
      exact h.fresh id hle e he
    · exact h.size_le.trans (h'.fresh id hge e he)

/-- What holds of the shapes of all nodes there are, and of where there is none, holds of all
shapes. -/
theorem forall_shape {P : Shape → Prop} (hnone : P .epsilon) (h : ∀ n ∈ g.nodes, P n.shape)
    (id : NodeId) : P (g.shape id) := by
  rw [shape, node, Array.getD_eq_getD_getElem?]
  cases hn : g.nodes[id]? with
  | none => exact hnone
  | some n => exact h n (Array.mem_of_getElem? hn)

theorem node_addNode (s : Shape) (location : Option Location) :
    (g.addNode s location).2.node x = if x = g.nodes.size then ⟨s, location⟩ else g.node x := by
  simp only [node, addNode, Array.getD_eq_getD_getElem?, Array.getElem?_push]
  split <;> rfl

theorem shape_addNode (s : Shape) (location : Option Location) :
    (g.addNode s location).2.shape x = if x = g.nodes.size then s else g.shape x := by
  rw [shape, node_addNode]
  split <;> rfl

/-- A node may be added after its children. -/
theorem Grows.addNode {g' : Grammar} (h : g.Grows g') {s : Shape}
    (hs : ∀ e ∈ s.children, g.nodes.size ≤ e ∧ e < g'.nodes.size) (location : Option Location) :
    g.Grows (g'.addNode s location).2 := by
  have hsize : (g'.addNode s location).2.nodes.size = g'.nodes.size + 1 := Array.size_push _
  have hchildren (id e : NodeId) (he : e ∈ (g'.addNode s location).2.children id) :
      id = g'.nodes.size ∧ e ∈ s.children ∨ e ∈ g'.children id := by
    rw [children, shape_addNode] at he
    split at he
    · next hid => exact .inl ⟨hid, he⟩
    · exact .inr he
  refine ⟨h.rules, h.initializer, hsize ▸ h.size_le.trans (Nat.le_succ _),
    fun hg id hlt e he => ?_, fun id hlt => ?_, fun id hle e he => ?_⟩
  · rcases hchildren id e he with ⟨rfl, hmem⟩ | he
    · exact (hs e hmem).2
    · rcases Nat.lt_or_ge id g'.nodes.size with hold | hnew
      · exact h.ordered hg id hold e he
      · rw [children_of_size_le hnew] at he
        cases he
  · rw [node_addNode, if_neg (Nat.ne_of_lt (hlt.trans_le h.size_le)), h.kept id hlt]
  · rcases hchildren id e he with ⟨-, he⟩ | he
    · exact (hs e he).1
    · exact h.fresh id hle e he

mutual

theorem addExpr_grows (g : Grammar) (e : Expr) :
    g.Grows (g.addExpr e).2 ∧ g.nodes.size ≤ (g.addExpr e).1 ∧
      (g.addExpr e).1 + 1 = (g.addExpr e).2.nodes.size := by
  cases e with
  | mk form location =>
    obtain ⟨hgrows, hs⟩ := addForm_grows g form
    exact ⟨hgrows.addNode hs location, hgrows.size_le, (Array.size_push _).symm⟩

theorem addForm_grows (g : Grammar) (form : Expr.Form) :
    g.Grows (g.addForm form).2 ∧ ∀ e ∈ (g.addForm form).1.children,
      g.nodes.size ≤ e ∧ e < (g.addForm form).2.nodes.size := by
  have hone {g' : Grammar} {id : NodeId}
      (h : g.Grows g' ∧ g.nodes.size ≤ id ∧ id + 1 = g'.nodes.size) :
      g.Grows g' ∧ ∀ e ∈ [id], g.nodes.size ≤ e ∧ e < g'.nodes.size := by
    obtain ⟨hgrows, hle, hlt⟩ := h
    refine ⟨hgrows, fun e he => ?_⟩
    rw [List.mem_singleton.mp he]
    exact ⟨hle, hlt.le⟩
  cases form with
  | named name e => exact hone (addExpr_grows g e)
  | action e code => exact hone (addExpr_grows g e)
  | labeled label e => exact hone (addExpr_grows g e)
  | text e => exact hone (addExpr_grows g e)
  | simpleAnd e => exact hone (addExpr_grows g e)
  | simpleNot e => exact hone (addExpr_grows g e)
  | optional e => exact hone (addExpr_grows g e)
  | zeroOrMore e => exact hone (addExpr_grows g e)
  | oneOrMore e => exact hone (addExpr_grows g e)
  | choice es => exact addExprs_grows g es
  | sequence es => exact addExprs_grows g es
  | range min max e delimiter =>
    cases delimiter with
    | none => exact hone (addExpr_grows g e)
    | some d =>
      obtain ⟨hitem, hle, hlt⟩ := addExpr_grows g e
      obtain ⟨hdelimiter, hle', hlt'⟩ := addExpr_grows (g.addExpr e).2 d
      refine ⟨hitem.trans hdelimiter, fun id hid => ?_⟩
      rcases List.mem_cons.mp hid with rfl | hid
      · exact ⟨hle, hlt.le.trans hdelimiter.size_le⟩
      · rw [List.mem_singleton.mp hid]
        exact ⟨hitem.size_le.trans hle', hlt'.le⟩
  | semanticAnd code => exact ⟨.refl g, nofun⟩
  | semanticNot code => exact ⟨.refl g, nofun⟩
  | ruleRef name => exact ⟨.refl g, nofun⟩
  | literal value ignoreCase => exact ⟨.refl g, nofun⟩
  | charClass parts inverted ignoreCase raw => exact ⟨.refl g, nofun⟩
  | regex value ignoreCase multiLine raw => exact ⟨.refl g, nofun⟩
  | any => exact ⟨.refl g, nofun⟩
  | epsilon => exact ⟨.refl g, nofun⟩
  | code code => exact ⟨.refl g, nofun⟩

theorem addExprs_grows (g : Grammar) (es : List Expr) :
    g.Grows (g.addExprs es).2 ∧
      ∀ e ∈ (g.addExprs es).1, g.nodes.size ≤ e ∧ e < (g.addExprs es).2.nodes.size := by
  cases es with
  | nil => exact ⟨.refl g, nofun⟩
  | cons e es =>
    obtain ⟨hfirst, hle, hlt⟩ := addExpr_grows g e
    obtain ⟨hrest, hbounds⟩ := addExprs_grows (g.addExpr e).2 es
    refine ⟨hfirst.trans hrest, fun id hid => ?_⟩
    rcases List.mem_cons.mp hid with rfl | hid
    · exact ⟨hle, hlt.le.trans hrest.size_le⟩
    · exact ⟨hfirst.size_le.trans (hbounds id hid).1, (hbounds id hid).2⟩

end

/-- Nothing is above the root of a rule. -/
def RootsOnTop (g : Grammar) : Prop := ∀ r ∈ g.rules, ∀ id, r.expression ∉ g.children id

/-- Grammars as flattening makes them. -/
structure Flattened (g : Grammar) : Prop where
  ordered : g.Ordered
  roots : ∀ r ∈ g.rules, r.expression < g.nodes.size
  onTop : g.RootsOnTop

theorem Flattened.addRule (h : g.Flattened) (rs : RuleSource) : (g.addRule rs).Flattened := by
  obtain ⟨hgrows, -, hlast⟩ := addExpr_grows g rs.expression
  have hordered := hgrows.ordered h.ordered
  have hrules {r : Rule} (hr : r ∈ (g.addRule rs).rules) :
      r ∈ g.rules ∨ r.expression = (g.addExpr rs.expression).1 := by
    rcases List.mem_append.mp hr with hr | hr
    · rw [hgrows.rules] at hr
      exact .inl hr
    · rw [List.mem_singleton.mp hr]
      exact .inr rfl
  refine ⟨hordered, fun r hr => ?_, fun r hr id hmem => ?_⟩
  · rcases hrules hr with hr | hroot
    · exact (h.roots r hr).trans_le hgrows.size_le
    · rw [hroot]
      exact hlast.le
  · rcases hrules hr with hr | hroot
    · rcases Nat.lt_or_ge id g.nodes.size with hold | hnew
      · refine h.onTop r hr id ?_
        rwa [children, ← hgrows.shape_eq hold]
      · exact absurd (h.roots r hr) (Nat.not_lt.mpr (hgrows.fresh id hnew _ hmem))
    · -- The new root is the last node, and children come before their parents.
      rcases Nat.lt_or_ge id (g.addExpr rs.expression).2.nodes.size with hlt | hge
      · have hless := hordered id hlt _ hmem
        rw [hroot] at hless
        exact absurd hlt (Nat.not_lt.mpr (hlast.symm.le.trans hless))
      · have hnone := children_of_size_le hge
        exact List.not_mem_nil (hnone ▸ hmem)

theorem ofSource_flattened (source : GrammarSource) : (ofSource source).Flattened := by
  refine List.foldlRecOn (motive := Flattened) _ _ ?_ fun g hg rs _ => hg.addRule rs
  exact ⟨fun id hlt => absurd hlt (Nat.not_lt_zero id), nofun, nofun⟩

/-- A grammar is made of plain trees, one for each rule. -/
structure Plain (g : Grammar) : Prop where
  trees : g.HasTrees
  onTop : g.RootsOnTop

/-- A grammar that was written down as nested expressions is made of plain trees. -/
theorem ofSource_plain (source : GrammarSource) : (ofSource source).Plain := by
  have h := ofSource_flattened source
  exact ⟨fun r hr => h.ordered.tree (h.roots r hr), h.onTop⟩

theorem ofSource_hasTrees (source : GrammarSource) : (ofSource source).HasTrees :=
  (ofSource_plain source).trees

end Grammar

end PegMachine
