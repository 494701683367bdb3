import Mathlib.Data.List.Flatten
import PegMachine.Proofs.Forests
import PegMachine.Proofs.Progress

/-!
# The report of endless recursion is exact

A reference is a left call if a parse can get to it from the root of its rule without passing what
is known to consume something. It is left recursive if the rule it calls is its own or leads back
there through left calls. These references are reported, each once and in their order, and no
others.
-/

namespace PegMachine

open Grammar Relation

namespace Facts

variable {f : Facts} {g : Grammar}

/-! ## Left calls -/

/-- Nothing that stands before an element is known to consume anything. -/
def Leading (f : Facts) (es : List NodeId) (e : NodeId) : Prop :=
  ∃ before after, es = before ++ e :: after ∧ ∀ b ∈ before, (f.consumptionOf b).min = 0

/-- A match of a node may try a child before anything is consumed. -/
def BegunWith (f : Facts) (g : Grammar) (id e : NodeId) : Prop :=
  match g.shape id with
  | .sequence elements => f.Leading elements e
  | .range _ _ element delimiter => f.Leading (element :: delimiter.toList) e
  | s => e ∈ s.children

/-- A node of a rule is a reference to another rule that may be tried before anything is
consumed. -/
def LeftCall (f : Facts) (g : Grammar) (rule : Nat) (id : NodeId) (target : Nat) : Prop :=
  ∃ r name, g.rules[rule]? = some r ∧ ReflTransGen (f.BegunWith g) r.expression id ∧
    g.shape id = .ruleRef name ∧ g.ruleIndex? name = some target

/-- The left-call graph: a rule may call another one before it consumes anything. -/
def CallsFirst (f : Facts) (g : Grammar) (rule target : Nat) : Prop :=
  ∃ id, f.LeftCall g rule id target

/-- A node is a left call on a circle of left calls. -/
def LeftRecursive (f : Facts) (g : Grammar) (id : NodeId) : Prop :=
  ∃ rule target, f.LeftCall g rule id target ∧ ReflTransGen (f.CallsFirst g) target rule

theorem Leading.mem {es : List NodeId} {e : NodeId} (h : f.Leading es e) : e ∈ es := by
  obtain ⟨before, after, rfl, -⟩ := h
  exact List.mem_append_right _ List.mem_cons_self

theorem leading_cons {e e' : NodeId} {es : List NodeId} :
    f.Leading (e :: es) e' ↔ e' = e ∨ ((f.consumptionOf e).min = 0 ∧ f.Leading es e') := by
  constructor
  · rintro ⟨before, after, heq, hnone⟩
    cases before with
    | nil =>
      cases heq
      exact .inl rfl
    | cons b before =>
      cases heq
      exact .inr ⟨hnone _ List.mem_cons_self, before, after, rfl,
        fun b hb => hnone b (List.mem_cons_of_mem _ hb)⟩
  · rintro (rfl | ⟨hmin, before, after, rfl, hnone⟩)
    · exact ⟨[], es, rfl, nofun⟩
    · refine ⟨e :: before, after, rfl, fun b hb => ?_⟩
      rcases List.mem_cons.mp hb with rfl | hb
      · exact hmin
      · exact hnone b hb

theorem matchesEmpty_iff {id : NodeId} : f.matchesEmpty id = true ↔ (f.consumptionOf id).min = 0 := by
  rw [matchesEmpty, Consumption.matchesEmpty, beq_iff_eq]

theorem mem_leadingCalls_iff {calls : NodeId → List Call} {es : List NodeId} {call : Call} :
    call ∈ f.leadingCalls calls es ↔ ∃ e, f.Leading es e ∧ call ∈ calls e := by
  induction es with
  | nil => simp [leadingCalls, Leading]
  | cons e es ih =>
    have hrest : call ∈ (if f.matchesEmpty e then f.leadingCalls calls es else []) ↔
        (f.consumptionOf e).min = 0 ∧ ∃ e', f.Leading es e' ∧ call ∈ calls e' := by
      rw [← matchesEmpty_iff, ← ih]
      split <;> simp [*]
    rw [leadingCalls, List.mem_append, hrest]
    simp only [leading_cons]
    constructor
    · rintro (hcall | ⟨hmin, e', he', hcall⟩)
      · exact ⟨e, .inl rfl, hcall⟩
      · exact ⟨e', .inr ⟨hmin, he'⟩, hcall⟩
    · rintro ⟨e', rfl | ⟨hmin, he'⟩, hcall⟩
      · exact .inl hcall
      · exact .inr ⟨hmin, e', he', hcall⟩

theorem BegunWith.child {id e : NodeId} (h : f.BegunWith g id e) : e ∈ g.children id := by
  rw [BegunWith] at h
  rw [children]
  split at h
  · next hshape =>
    rw [hshape]
    exact h.mem
  · next hshape =>
    rw [hshape]
    exact h.mem
  · exact h

theorem below_of_begunWith {id x : NodeId} (h : ReflTransGen (f.BegunWith g) id x) :
    g.Below id x := ReflTransGen.mono (fun _ _ => BegunWith.child) _ _ h

/-- The calls of a node are those of what it may begin with, or the node is one itself. -/
theorem mem_leftCalls_succ {depth : Nat} {id : NodeId} {call : Call} :
    call ∈ f.leftCalls g (depth + 1) id ↔
      (∃ e, f.BegunWith g id e ∧ call ∈ f.leftCalls g depth e) ∨
        call.node = id ∧ (∃ name, g.shape id = .ruleRef name) ∧
          f.target? id = some call.target := by
  rw [leftCalls]
  simp only [BegunWith]
  -- Only sequences and ranges have children that come after others.
  cases hshape : g.shape id
  case sequence es => simp [mem_leadingCalls_iff]
  case range min max e delimiter => simp [mem_leadingCalls_iff]
  case ruleRef name =>
    obtain ⟨node, target⟩ := call
    cases f.target? id <;> simp [Shape.children, Shape.singleChild?, eq_comm]
  all_goals simp [List.mem_flatMap]

/-- The calls that are found are the references that can be got to. -/
theorem mem_leftCalls_iff {depth : Nat} {id : NodeId} {call : Call} (hwithin : g.Within depth id) :
    call ∈ f.leftCalls g depth id ↔ ReflTransGen (f.BegunWith g) id call.node ∧
      (∃ name, g.shape call.node = .ruleRef name) ∧ f.target? call.node = some call.target := by
  induction depth generalizing id with
  | zero => exact hwithin.elim
  | succ depth ih =>
    rw [mem_leftCalls_succ, ReflTransGen.cases_head_iff]
    constructor
    · rintro (⟨e, he, hcall⟩ | ⟨rfl, hcall⟩)
      · obtain ⟨hpath, hcall⟩ := (ih (hwithin.2 e he.child)).mp hcall
        exact ⟨.inr ⟨e, he, hpath⟩, hcall⟩
      · exact ⟨.inl rfl, hcall⟩
    · rintro ⟨rfl | ⟨e, he, hpath⟩, hcall⟩
      · exact .inr ⟨rfl, hcall⟩
      · exact .inl ⟨e, he, (ih (hwithin.2 e he.child)).mpr ⟨hpath, hcall⟩⟩

/-! ## The left-call graph -/

theorem mem_leftCallsOfRule (hf : f.Links g) (htrees : g.HasTrees) {rule : Nat} {r : Rule}
    (hr : g.rules[rule]? = some r) {call : Call} :
    call ∈ f.leftCallsOfRule g r ↔ f.LeftCall g rule call.node call.target := by
  have htree := htrees r (List.mem_of_getElem? hr)
  rw [leftCallsOfRule, mem_leftCalls_iff htree.within]
  constructor
  · rintro ⟨hpath, ⟨name, hshape⟩, htarget⟩
    rw [hf.target?_eq hr htree (below_of_begunWith hpath) hshape] at htarget
    exact ⟨r, name, hr, hpath, hshape, htarget⟩
  · rintro ⟨r', name, hr', hpath, hshape, htarget⟩
    cases hr.symm.trans hr'
    rw [hf.target?_eq hr htree (below_of_begunWith hpath) hshape]
    exact ⟨hpath, ⟨name, hshape⟩, htarget⟩

theorem mem_leftEdges_iff (hf : f.Links g) (htrees : g.HasTrees) {rule target : Nat} :
    target ∈ f.leftEdges g rule ↔ f.CallsFirst g rule target := by
  constructor
  · intro h
    obtain ⟨r, hr, call, hcall, rfl⟩ := mem_leftEdges h
    exact ⟨call.node, (mem_leftCallsOfRule hf htrees hr).mp hcall⟩
  · rintro ⟨id, hcall⟩
    obtain ⟨r, name, hr, hcall'⟩ := hcall
    rw [leftEdges, hr]
    refine List.mem_map.mpr ⟨⟨id, target⟩, ?_, rfl⟩
    exact (mem_leftCallsOfRule hf htrees hr).mpr ⟨r, name, hr, hcall'⟩

theorem CallsFirst.lt {rule target : Nat} (h : f.CallsFirst g rule target) :
    target < g.rules.length := by
  obtain ⟨id, r, name, -, -, -, hindex⟩ := h
  exact ruleIndex?_lt hindex

/-- The rules that are marked are those that left calls lead to. -/
theorem marked_leftReach_iff (hf : f.Links g) (htrees : g.HasTrees) {rule target : Nat} :
    Reach.Marked (f.leftReach g rule) target ↔ TransGen (f.CallsFirst g) rule target := by
  constructor
  · refine Reach.of_marked_closure (fun target htarget => ?_) fun target hpath next hnext => ?_
    · exact .single ((mem_leftEdges_iff hf htrees).mp htarget)
    · exact hpath.tail ((mem_leftEdges_iff hf htrees).mp hnext)
  · intro hpath
    induction hpath with
    | single hcall =>
      exact Reach.marked_start ((mem_leftEdges_iff hf htrees).mpr hcall) hcall.lt
    | tail _ hcall ih =>
      exact Reach.closed_closure _ _ _ ih ((mem_leftEdges_iff hf htrees).mpr hcall) hcall.lt

/-! ## The report -/

theorem leadsBack_iff (hf : f.Links g) (htrees : g.HasTrees) {rule : Nat} {call : Call} :
    f.leadsBack g rule call = true ↔ ReflTransGen (f.CallsFirst g) call.target rule := by
  rw [leadsBack, Bool.or_eq_true, beq_iff_eq, reflTransGen_iff_eq_or_transGen,
    ← marked_leftReach_iff hf htrees, eq_comm]
  rfl

theorem mem_recursiveCalls (hf : f.Links g) (htrees : g.HasTrees) {call : Call} :
    call ∈ f.recursiveCalls g ↔ ∃ rule, f.LeftCall g rule call.node call.target ∧
      ReflTransGen (f.CallsFirst g) call.target rule := by
  rw [recursiveCalls, List.mem_flatMap]
  constructor
  · rintro ⟨⟨own, rule⟩, hmem, hcall⟩
    rw [List.mem_zipIdx_iff_getElem?, List.getElem?_map, Option.map_eq_some_iff] at hmem
    obtain ⟨r, hr, rfl⟩ := hmem
    obtain ⟨hown, hback⟩ := List.mem_filter.mp hcall
    exact ⟨rule, (mem_leftCallsOfRule hf htrees hr).mp hown, (leadsBack_iff hf htrees).mp hback⟩
  · rintro ⟨rule, hcall, hback⟩
    obtain ⟨r, name, hr, -⟩ := id hcall
    refine ⟨(f.leftCallsOfRule g r, rule), ?_, List.mem_filter.mpr ⟨?_, ?_⟩⟩
    · rw [List.mem_zipIdx_iff_getElem?, List.getElem?_map, hr, Option.map_some]
    · exact (mem_leftCallsOfRule hf htrees hr).mpr hcall
    · exact (leadsBack_iff hf htrees).mpr hback

theorem mem_map_recursiveCalls (hf : f.Links g) (htrees : g.HasTrees) {id : NodeId} :
    id ∈ (f.recursiveCalls g).map (·.node) ↔ f.LeftRecursive g id := by
  rw [List.mem_map]
  constructor
  · rintro ⟨call, hcall, rfl⟩
    obtain ⟨rule, hleft, hback⟩ := (mem_recursiveCalls hf htrees).mp hcall
    exact ⟨rule, call.target, hleft, hback⟩
  · rintro ⟨rule, target, hleft, hback⟩
    exact ⟨⟨id, target⟩, (mem_recursiveCalls hf htrees).mpr ⟨rule, hleft, hback⟩, rfl⟩

theorem LeftCall.isSome_reference? {rule target : Nat} {id : NodeId}
    (h : f.LeftCall g rule id target) : (g.reference? id).isSome := by
  obtain ⟨r, name, -, -, hshape, -⟩ := h
  rw [reference?, hshape]
  rfl

theorem map_some_filterMap {α β : Type} {p : α → Option β} {l : List α}
    (h : ∀ a ∈ l, (p a).isSome) : (l.filterMap p).map some = l.map p := by
  induction l with
  | nil => rfl
  | cons a l ih =>
    obtain ⟨b, hb⟩ := Option.isSome_iff_exists.mp (h a List.mem_cons_self)
    rw [List.filterMap_cons_some hb, List.map_cons, List.map_cons, hb,
      ih fun a ha => h a (List.mem_cons_of_mem _ ha)]

/-! ### The order -/

theorem leadingCalls_sublist {calls : NodeId → List Call} {nodes : NodeId → List NodeId}
    {es : List NodeId} (h : ∀ e ∈ es, ((calls e).map (·.node)).Sublist (nodes e)) :
    ((f.leadingCalls calls es).map (·.node)).Sublist (es.flatMap nodes) := by
  induction es with
  | nil => exact List.Sublist.refl _
  | cons e es ih =>
    rw [leadingCalls, List.map_append, List.flatMap_cons]
    refine (h e List.mem_cons_self).append ?_
    split
    · exact ih fun e he => h e (List.mem_cons_of_mem _ he)
    · exact List.nil_sublist _

/-- Calls are found in the order of the nodes, each once. -/
theorem leftCalls_sublist (depth : Nat) (id : NodeId) :
    ((f.leftCalls g depth id).map (·.node)).Sublist (g.preorder depth id) := by
  induction depth generalizing id with
  | zero => exact List.Sublist.refl _
  | succ depth ih =>
    rw [leftCalls, preorder, children]
    split
    · next es hshape =>
      rw [hshape]
      exact (leadingCalls_sublist fun e _ => ih e).cons _
    · next min max e delimiter hshape =>
      rw [hshape]
      exact (leadingCalls_sublist fun e _ => ih e).cons _
    · cases f.target? id with
      | none => exact List.nil_sublist _
      | some target => exact (List.nil_sublist _).cons_cons _
    · rw [List.map_flatMap]
      exact (List.Sublist.flatMap_right _ fun e _ => ih e).cons _

theorem flatMap_filter_zipIdx_sublist {α : Type} (p : Nat → α → Bool) (lists : List (List α))
    (n : Nat) : ((lists.zipIdx n).flatMap fun l => l.1.filter (p l.2)).Sublist lists.flatten := by
  induction lists generalizing n with
  | nil => exact List.Sublist.refl _
  | cons l lists ih =>
    rw [List.zipIdx_cons, List.flatMap_cons, List.flatten_cons]
    exact List.filter_sublist.append (ih (n + 1))

theorem recursiveCalls_sublist (htrees : g.HasTrees) :
    ((f.recursiveCalls g).map (·.node)).Sublist g.allNodes := by
  have hall := flatMap_filter_zipIdx_sublist (f.leadsBack g) (g.rules.map (f.leftCallsOfRule g)) 0
  refine (hall.map (·.node)).trans ?_
  rw [htrees.allNodes_eq, ← List.flatMap_def, List.map_flatMap, List.flatMap_map]
  exact List.Sublist.flatMap_right _ fun r _ => leftCalls_sublist _ _

end Facts

/-- The report of left recursion is exact. It consists of the references that are left calls on a
circle of left calls, in the order of the rules and, within a rule, from left to right. As a walk
over the rules comes to every node just once, each of them is reported once. There is nothing to
report just if no left calls lead a rule back to itself. -/
theorem Facts.leftRecursion_exact (source : GrammarSource) (facts : Facts)
    (starters : List String) :
    let g := Grammar.ofSource source
    let f := (facts.link g starters).analyze g
    g.allNodes.Nodup ∧
      (∃ reported : List NodeId, reported.Sublist g.allNodes ∧
        (∀ id, id ∈ reported ↔ f.LeftRecursive g id) ∧
        (f.leftRecursion g).map some = reported.map g.reference?) ∧
      (f.leftRecursion g = [] ↔ ∀ rule, ¬TransGen (f.CallsFirst g) rule rule) := by
  intro g f
  have hf : f.Links g := Accepted.Linked.analyze (links_link facts g starters)
  have htrees : g.HasTrees := ofSource_hasTrees source
  have hmem (id : NodeId) : id ∈ (f.recursiveCalls g).map (·.node) ↔ f.LeftRecursive g id :=
    mem_map_recursiveCalls hf htrees
  have hreport : (f.leftRecursion g).map some =
      ((f.recursiveCalls g).map (·.node)).map g.reference? := by
    rw [leftRecursion_eq hf.refers, List.map_map]
    refine map_some_filterMap fun call hcall => ?_
    obtain ⟨rule, target, hleft, -⟩ := (hmem call.node).mp (List.mem_map_of_mem hcall)
    exact hleft.isSome_reference?
  refine ⟨(ofSource_forest source).nodup_allNodes htrees,
    ⟨_, recursiveCalls_sublist htrees, hmem, hreport⟩, ?_⟩
  have hnil : f.leftRecursion g = [] ↔ (f.recursiveCalls g).map (·.node) = [] := by
    rw [← List.map_eq_nil_iff (f := some), hreport, List.map_eq_nil_iff]
  rw [hnil, List.eq_nil_iff_forall_not_mem]
  simp only [hmem]
  constructor
  · intro hnone rule hcircle
    obtain ⟨target, ⟨id, hcall⟩, hback⟩ := TransGen.head'_iff.mp hcircle
    exact hnone id ⟨rule, target, hcall, hback⟩
  · rintro hnone id ⟨rule, target, hcall, hback⟩
    exact hnone rule (TransGen.head'_iff.mpr ⟨target, ⟨id, hcall⟩, hback⟩)

/-- The rule `start` leads to a circle, but is not on it, so only the reference in `list` is
reported. -/
example :
    let g := Grammar.ofSource { rules := [
      ⟨"start", .of (.sequence [.of (.optional (.of .any)), .of (.ruleRef "list")]), [], none⟩,
      ⟨"list", .of (.choice [.of (.sequence [.of (.ruleRef "list"), .of .any]), .of .any]), [],
        none⟩] }
    ((({} : Facts).link g ["start"]).analyze g).leftRecursion g = [("list", none)] := by
  decide +kernel

end PegMachine
