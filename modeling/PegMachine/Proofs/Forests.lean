import Mathlib.Data.List.Nodup
import Mathlib.Data.List.Pairwise
import Mathlib.Data.List.Perm.Basic
import PegMachine.Proofs.Trees

/-!
# Trees that share nothing

Flattening makes every node once, and then puts it below one other node or at the root of one rule.
So a node hangs on one place only, no two trees of the arena share a node unless one contains the
other, and a walk over all rules comes to every node just once.
-/

namespace PegMachine

namespace Grammar

variable {g : Grammar} {a b p q x : NodeId} {depth : Nat}

/-! ## Every node hangs on one place -/

/-- The nodes that hang on other nodes, each as often as it does. -/
def hung (g : Grammar) : List NodeId := (List.range g.nodes.size).flatMap g.children

/-- Every node of the arena hangs on just one other node, or is one of those on top. -/
def Settles (g : Grammar) (tops : List NodeId) : Prop :=
  (tops ++ g.hung).Perm (List.range g.nodes.size)

theorem Settles.perm {tops tops' : List NodeId} (h : g.Settles tops) (hperm : tops'.Perm tops) :
    g.Settles tops' := (hperm.append_right _).trans h

theorem hung_addNode (s : Shape) (location : Option Location) :
    (g.addNode s location).2.hung = g.hung ++ s.children := by
  have hsize : (g.addNode s location).2.nodes.size = g.nodes.size + 1 := Array.size_push _
  have hold : ∀ id ∈ List.range g.nodes.size,
      (g.addNode s location).2.children id = g.children id := by
    intro id hid
    rw [children, shape_addNode, if_neg (Nat.ne_of_lt (List.mem_range.mp hid)), children]
  rw [hung, hsize, List.range_succ, List.flatMap_append, List.flatMap_singleton,
    List.flatMap_congr hold, children, shape_addNode, if_pos rfl, hung]

/-- A new node takes its children from the top and is on top itself. -/
theorem Settles.addNode {s : Shape} {tops : List NodeId} (h : g.Settles (s.children ++ tops))
    (location : Option Location) :
    (g.addNode s location).2.Settles ((g.addNode s location).1 :: tops) := by
  have hsize : (g.addNode s location).2.nodes.size = g.nodes.size + 1 := Array.size_push _
  have hid : (g.addNode s location).1 = g.nodes.size := rfl
  have hmoved : (tops ++ (g.hung ++ s.children)).Perm (s.children ++ tops ++ g.hung) := by
    rw [← List.append_assoc, List.append_assoc s.children]
    exact List.perm_append_comm
  rw [Settles, hsize, hid, hung_addNode, List.range_succ, List.cons_append]
  exact ((hmoved.trans h).cons _).trans (List.perm_append_singleton _ _).symm

mutual

theorem addExpr_settles (g : Grammar) (e : Expr) {tops : List NodeId} (h : g.Settles tops) :
    (g.addExpr e).2.Settles ((g.addExpr e).1 :: tops) := by
  cases e with
  | mk form location => exact (addForm_settles g form h).addNode location

theorem addForm_settles (g : Grammar) (form : Expr.Form) {tops : List NodeId}
    (h : g.Settles tops) : (g.addForm form).2.Settles ((g.addForm form).1.children ++ tops) := by
  cases form with
  | named name e => exact addExpr_settles g e h
  | action e code => exact addExpr_settles g e h
  | labeled label e => exact addExpr_settles g e h
  | text e => exact addExpr_settles g e h
  | simpleAnd e => exact addExpr_settles g e h
  | simpleNot e => exact addExpr_settles g e h
  | optional e => exact addExpr_settles g e h
  | zeroOrMore e => exact addExpr_settles g e h
  | oneOrMore e => exact addExpr_settles g e h
  | choice es => exact addExprs_settles g es h
  | sequence es => exact addExprs_settles g es h
  | range min max e delimiter =>
    cases delimiter with
    | none => exact addExpr_settles g e h
    | some d =>
      have hboth := addExpr_settles (g.addExpr e).2 d (addExpr_settles g e h)
      exact hboth.perm (List.Perm.swap _ _ _)
  | semanticAnd code => exact h
  | semanticNot code => exact h
  | ruleRef name => exact h
  | literal value ignoreCase => exact h
  | charClass parts inverted ignoreCase raw => exact h
  | regex value ignoreCase multiLine raw => exact h
  | any => exact h
  | epsilon => exact h
  | code code => exact h

theorem addExprs_settles (g : Grammar) (es : List Expr) {tops : List NodeId}
    (h : g.Settles tops) : (g.addExprs es).2.Settles ((g.addExprs es).1 ++ tops) := by
  cases es with
  | nil => exact h
  | cons e es =>
    have hall := addExprs_settles (g.addExpr e).2 es (addExpr_settles g e h)
    exact hall.perm List.perm_middle.symm

end

/-- Every node of the arena hangs on just one other node, or is the root of just one rule. -/
def Forest (g : Grammar) : Prop := g.Settles (g.rules.map (·.expression))

theorem Forest.addRule (h : g.Forest) (rs : RuleSource) : (g.addRule rs).Forest := by
  have hrules : (g.addRule rs).rules.map (·.expression) =
      g.rules.map (·.expression) ++ [(g.addExpr rs.expression).1] := by
    have hkept := (addExpr_grows g rs.expression).1.rules
    simp [Grammar.addRule, hkept]
  rw [Forest, hrules]
  exact (addExpr_settles g rs.expression h).perm (List.perm_append_singleton _ _)

/-- Flattening leaves no node over and uses none twice. -/
theorem ofSource_forest (source : GrammarSource) : (ofSource source).Forest :=
  List.foldlRecOn (motive := Forest) _ _ (List.Perm.refl _) fun _ hg rs _ => hg.addRule rs

/-! ## Trees share nothing -/

theorem Forest.nodup (h : g.Forest) : (g.rules.map (·.expression) ++ g.hung).Nodup :=
  h.nodup_iff.mpr List.nodup_range

theorem mem_hung : x ∈ g.hung ↔ ∃ p, x ∈ g.children p := by
  rw [hung, List.mem_flatMap]
  refine ⟨fun ⟨p, _, hx⟩ => ⟨p, hx⟩, fun ⟨p, hx⟩ => ⟨p, List.mem_range.mpr ?_, hx⟩⟩
  by_contra hge
  rw [children_of_size_le (Nat.not_lt.mp hge)] at hx
  cases hx

/-- What hangs on a node hangs on it once. -/
theorem Forest.nodup_children (h : g.Forest) (id : NodeId) : (g.children id).Nodup := by
  rcases Nat.lt_or_ge id g.nodes.size with hlt | hge
  · exact (List.nodup_flatMap.mp (List.nodup_append.mp h.nodup).2.1).1 id (List.mem_range.mpr hlt)
  · rw [children_of_size_le hge]
    exact List.nodup_nil

/-- A node hangs on one node only. -/
theorem Forest.parent_unique (h : g.Forest) (hp : x ∈ g.children p) (hq : x ∈ g.children q) :
    p = q := by
  by_contra hne
  have hlt {p : NodeId} (hp : x ∈ g.children p) : p ∈ List.range g.nodes.size := by
    refine List.mem_range.mpr (Nat.not_le.mp fun hge => ?_)
    rw [children_of_size_le hge] at hp
    cases hp
  have hapart := (List.nodup_flatMap.mp (List.nodup_append.mp h.nodup).2.1).2
  have : Std.Symm (Function.onFun List.Disjoint g.children) := ⟨fun _ _ hd => hd.symm⟩
  exact hapart.forall (hlt hp) (hlt hq) hne hp hq

/-- The root of a rule hangs on no node. -/
theorem Forest.root_not_mem {r : Rule} (h : g.Forest) (hr : r ∈ g.rules) :
    r.expression ∉ g.children p := fun hp =>
  (List.nodup_append.mp h.nodup).2.2 _ (List.mem_map_of_mem hr) _ (mem_hung.mpr ⟨p, hp⟩) rfl

/-- What has a node in common contains the other. -/
theorem Forest.below_total (h : g.Forest) (ha : g.Below a x) (hb : g.Below b x) :
    g.Below a b ∨ g.Below b a := by
  -- From the common node there is one way up, and both lie on it.
  have hup : Relator.RightUnique fun x p => x ∈ g.children p := fun _ _ _ hp hq =>
    h.parent_unique hp hq
  have htotal := Relation.ReflTransGen.total_of_right_unique hup
    (Relation.reflTransGen_swap.mp ha) (Relation.reflTransGen_swap.mp hb)
  exact (htotal.imp Relation.reflTransGen_swap.mp Relation.reflTransGen_swap.mp).symm

/-- Trees next to each other share no node. -/
theorem nodup_flatMap_preorder {ids : List NodeId} (hids : ids.Nodup)
    (hwithin : ∀ id ∈ ids, g.Within depth id)
    (hone : ∀ id ∈ ids, (g.preorder depth id).Nodup)
    (hapart : ∀ a ∈ ids, ∀ b ∈ ids, ∀ x, g.Below a x → g.Below b x → a = b) :
    (ids.flatMap (g.preorder depth)).Nodup := by
  refine List.nodup_flatMap.mpr ⟨hone, hids.imp_of_mem fun ha hb hne x hxa hxb => ?_⟩
  exact hne (hapart _ ha _ hb x ((mem_preorder (hwithin _ ha)).mp hxa)
    ((mem_preorder (hwithin _ hb)).mp hxb))

/-- A walk comes to no node of a tree twice. -/
theorem Forest.nodup_preorder (h : g.Forest) {id : NodeId} (hwithin : g.Within depth id) :
    (g.preorder depth id).Nodup := by
  induction depth generalizing id with
  | zero => exact hwithin.elim
  | succ depth ih =>
    have hcycle := hwithin.tree.not_transGen
    rw [preorder, List.nodup_cons]
    refine ⟨fun hmem => ?_, nodup_flatMap_preorder (h.nodup_children id) hwithin.2
      (fun e he => ih (hwithin.2 e he)) fun a ha b hb x hax hbx => ?_⟩
    · obtain ⟨e, he, hback⟩ := List.mem_flatMap.mp hmem
      exact hcycle (.head' he ((mem_preorder (hwithin.2 e he)).mp hback))
    · -- If one child contained the other, that one would hang on something below the node.
      have hback {a b : NodeId} (ha : a ∈ g.children id) (hb : b ∈ g.children id)
          (hab : g.Below a b) : a = b := by
        rcases hab.cases_tail with heq | ⟨p, hap, hbp⟩
        · exact heq.symm
        · rw [h.parent_unique hbp hb] at hap
          exact absurd (Relation.TransGen.head' ha hap) hcycle
      rcases h.below_total hax hbx with hab | hba
      · exact hback ha hb hab
      · exact (hback hb ha hba).symm

/-- The nodes of all rules, rule by rule. -/
def allNodes (g : Grammar) : List NodeId := (List.range g.rules.length).flatMap g.ruleNodes

theorem HasTrees.map_ruleNodes (h : g.HasTrees) :
    (List.range g.rules.length).map g.ruleNodes =
      (g.rules.map (·.expression)).map (g.preorder g.depthBound) := by
  refine List.ext_getElem (by simp) fun i hi _ => ?_
  have hlt : i < g.rules.length := by simpa using hi
  rw [List.getElem_map, List.getElem_range, List.getElem_map, List.getElem_map]
  exact ruleNodes_eq (List.getElem?_eq_getElem hlt) (h _ (List.getElem_mem hlt))

theorem HasTrees.allNodes_eq (h : g.HasTrees) :
    g.allNodes = (g.rules.map (·.expression)).flatMap (g.preorder g.depthBound) := by
  rw [allNodes, List.flatMap_def, h.map_ruleNodes, List.flatMap_def]

/-- A walk over all rules comes to no node twice. -/
theorem Forest.nodup_allNodes (h : g.Forest) (htrees : g.HasTrees) : g.allNodes.Nodup := by
  have hroot {a : NodeId} (ha : a ∈ g.rules.map (·.expression)) :
      ∃ r ∈ g.rules, r.expression = a := List.mem_map.mp ha
  have hwithin : ∀ a ∈ g.rules.map (·.expression), g.Within g.depthBound a := by
    intro a ha
    obtain ⟨r, hr, rfl⟩ := hroot ha
    exact (htrees r hr).within
  -- A root that lies below another one would hang on a node.
  have honly {a b : NodeId} (hb : b ∈ g.rules.map (·.expression)) (hab : g.Below a b) : a = b := by
    obtain ⟨r, hr, rfl⟩ := hroot hb
    rcases hab.cases_tail with heq | ⟨p, -, hp⟩
    · exact heq.symm
    · exact absurd hp (h.root_not_mem hr)
  rw [htrees.allNodes_eq]
  refine nodup_flatMap_preorder (List.nodup_append.mp h.nodup).1 hwithin
    (fun a ha => h.nodup_preorder (hwithin a ha)) fun a ha b hb x hax hbx => ?_
  rcases h.below_total hax hbx with hab | hba
  · exact honly hb hab
  · exact (honly ha hba).symm

end Grammar

end PegMachine
