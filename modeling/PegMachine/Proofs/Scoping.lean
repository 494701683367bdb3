import Mathlib.Data.List.Nodup
import Mathlib.Data.Set.Lattice
import PegMachine.Proofs.Bindings

/-!
# Labels that code sees

An element of a sequence is in the scope of the labels of the elements before it, and an action is
in the scope of those of the expression that it belongs to. Code is generated with the labels in
scope as the parameters of actions. As the check for duplicate labels goes through a rule with at
least the labels that are in scope, it lets no rule through in which a label is bound that is in
scope already.
-/

namespace PegMachine

namespace Shape

/-- The label that a node carries. -/
def label? : Shape → Option String
  | .labeled label _ => label
  | _ => none

/-- The code that a node runs in the scope that the node itself is in. -/
def code? : Shape → Option String
  | .semanticAnd source => some source
  | .semanticNot source => some source
  | .code source => some source
  | _ => none

end Shape

namespace Grammar

variable {g : Grammar} {depth : Nat} {id e : NodeId} {es seen seen' nodes : List NodeId}
  {source name : String} {bound bound' : List String}

/-! ## Scopes -/

/-- The label that a node carries. -/
def label? (g : Grammar) (id : NodeId) : Option String := (g.shape id).label?

/-- The labels that nodes carry. -/
def labels (g : Grammar) (nodes : List NodeId) : List String := nodes.filterMap g.label?

/-- The nodes whose values an action gets: the elements of a sequence, or the expression itself. -/
def operands (g : Grammar) (id : NodeId) : List NodeId :=
  match g.shape id with
  | .sequence elements => elements
  | _ => [id]

/-- A node that is in the scope of some nodes hands a child the nodes that the child is in the scope
of: an element of a sequence is in the scope of those before it too, and in a range there is none in
scope. -/
def Hands (g : Grammar) (id : NodeId) (seen : List NodeId) (e : NodeId) (seen' : List NodeId) :
    Prop :=
  match g.shape id with
  | .sequence elements => ∃ before after, elements = before ++ e :: after ∧ seen' = seen ++ before
  | .range min max _ _ => ¬(max = some 0 ∧ min = 0) ∧ e ∈ g.children id ∧ seen' = []
  | _ => e ∈ g.children id ∧ seen' = seen

/-- `g.Sees id seen source nodes` says that if a node `id` is in the scope of the nodes `seen`, then
there is code `source` at the node or below it that is in the scope of `nodes`. -/
inductive Sees (g : Grammar) : NodeId → List NodeId → String → List NodeId → Prop where
  | own {id : NodeId} {seen : List NodeId} {source : String}
    (h : (g.shape id).code? = some source) : g.Sees id seen source seen
  | action {id e : NodeId} {seen : List NodeId} {source : String}
    (h : g.shape id = .action e source) : g.Sees id seen source (seen ++ g.operands e)
  | handed {id e : NodeId} {seen seen' nodes : List NodeId} {source : String}
    (he : g.Hands id seen e seen') (h : g.Sees e seen' source nodes) : g.Sees id seen source nodes

theorem Hands.mem_children (h : g.Hands id seen e seen') : e ∈ g.children id := by
  unfold Hands at h
  split at h
  · next hshape =>
    obtain ⟨before, after, rfl, -⟩ := h
    rw [children, hshape]
    exact List.mem_append_right _ List.mem_cons_self
  · exact h.2.1
  · exact h.1

theorem hands_iff_of_singleChild? (h : (g.shape id).singleChild? = some e) {e' : NodeId} :
    g.Hands id seen e' seen' ↔ e' = e ∧ seen' = seen := by
  unfold Hands
  cases hshape : g.shape id
  all_goals simp_all [children, Shape.children, Shape.singleChild?]

theorem hands_of_singleChild? (h : (g.shape id).singleChild? = some e) (seen : List NodeId) :
    g.Hands id seen e seen := (hands_iff_of_singleChild? h).mpr ⟨rfl, rfl⟩

/-! ## Labels of the nodes in scope -/

theorem labels_snoc (nodes : List NodeId) (id : NodeId) :
    g.labels (nodes ++ [id]) = g.labels nodes ++ (g.label? id).toList := by
  rw [labels, List.filterMap_append, List.filterMap_cons]
  cases g.label? id <;> rfl

theorem label?_of_ne (h : ∀ label e, g.shape id ≠ .labeled label e) : g.label? id = none := by
  rw [label?]
  cases hshape : g.shape id
  case labeled label e => exact absurd hshape (h label e)
  all_goals rfl

/-- If no two nodes carry the same label, each label stands for one node. -/
theorem existsUnique_of_nodup (h : (g.labels nodes).Nodup) (hname : name ∈ g.labels nodes) :
    ∃! id, id ∈ nodes ∧ g.label? id = some name := by
  obtain ⟨id, hid, hlabel⟩ := List.mem_filterMap.mp hname
  refine ⟨id, ⟨hid, hlabel⟩, fun other ⟨hother, hlabel'⟩ => ?_⟩
  by_contra hne
  have : Std.Symm fun v w => ∀ a, g.label? v = some a → ∀ b, g.label? w = some b → a ≠ b :=
    ⟨fun v w h a ha b hb => (h b hb a ha).symm⟩
  exact (List.pairwise_filterMap.mp h).forall hother hid hne name hlabel' name hlabel rfl

/-- The labels of nodes are different, and they are all bound. -/
structure BoundApart (g : Grammar) (nodes : List NodeId) (bound : List String) : Prop where
  nodup : (g.labels nodes).Nodup
  subset : g.labels nodes ⊆ bound

namespace BoundApart

open LabelScope

theorem nil : g.BoundApart [] bound := ⟨List.nodup_nil, List.nil_subset _⟩

theorem mono (h : g.BoundApart nodes bound) (hsub : bound ⊆ bound') : g.BoundApart nodes bound' :=
  ⟨h.nodup, List.Subset.trans h.subset hsub⟩

/-- Behind a node that was gone through, its label is one more. -/
theorem snoc (h : g.BoundApart nodes bound) (hin : g.Within depth id)
    (hafter : after? g depth id bound = some bound') : g.BoundApart (nodes ++ [id]) bound' := by
  obtain ⟨depth, rfl⟩ := hin.exists_succ
  have hunlabeled (hnone : g.label? id = none) : g.BoundApart (nodes ++ [id]) bound := by
    have hsame : g.labels (nodes ++ [id]) = g.labels nodes := by
      rw [labels_snoc, hnone, Option.toList_none, List.append_nil]
    exact ⟨hsame ▸ h.nodup, hsame ▸ h.subset⟩
  rcases after?_cases hafter with ⟨alternatives, hshape, rfl, -⟩ |
    ⟨label, e, hshape, rfl, -, hnot⟩ | ⟨-, hlabeled, hall⟩
  · exact hunlabeled (by simp [label?, Shape.label?, hshape])
  · have hlabel : g.label? id = label := by simp [label?, Shape.label?, hshape]
    refine ⟨?_, ?_⟩
    · rw [labels_snoc, hlabel, List.nodup_append]
      refine ⟨h.nodup, by cases label <;> simp, fun a ha b hb => ?_⟩
      rintro rfl
      exact hnot a (Option.mem_toList.mp hb) (h.subset ha)
    · rw [labels_snoc, hlabel]
      exact List.append_subset.mpr
        ⟨List.subset_append_of_subset_right _ h.subset, List.subset_append_left _ _⟩
  · exact (hunlabeled (label?_of_ne hlabeled)).mono (subset_of_afterAll? hall)

/-- Behind nodes that were gone through one after the other, their labels are more. -/
theorem append (h : g.BoundApart nodes bound) (hin : ∀ e ∈ es, g.Within depth e)
    (hafter : afterAll? g depth es bound = some bound') : g.BoundApart (nodes ++ es) bound' := by
  induction es generalizing nodes bound with
  | nil =>
    rw [List.append_nil, ← Option.some.inj hafter]
    exact h
  | cons e rest ih =>
    obtain ⟨he, hrest⟩ := List.forall_mem_cons.mp hin
    rw [afterAll?_cons] at hafter
    obtain ⟨next, hnext, hafter⟩ := Option.bind_eq_some_iff.mp hafter
    rw [List.append_cons]
    exact ih (h.snoc he hnext) hrest hafter

end BoundApart

section

open LabelScope

/-- A child of a node that was gone through is gone through with all labels bound that it is in the
scope of. -/
theorem Hands.exists_after? (h : g.Hands id seen e seen') (hin : g.Within (depth + 1) id)
    (hafter : after? g (depth + 1) id bound = some bound') (hseen : g.BoundApart seen bound) :
    ∃ start stop, after? g depth e start = some stop ∧ g.BoundApart seen' start := by
  unfold Hands at h
  rcases after?_cases hafter with ⟨alternatives, hshape, rfl, hall⟩ |
    ⟨label, inner, hshape, rfl, ⟨stop, hstop⟩, -⟩ | ⟨-, -, hall⟩
  · simp only [children, hshape] at h
    obtain ⟨he, rfl⟩ := h
    obtain ⟨stop, hstop⟩ := hall e he
    exact ⟨_, stop, hstop, hseen⟩
  · simp only [children, hshape] at h
    obtain ⟨he, rfl⟩ := h
    obtain rfl := List.mem_singleton.mp he
    exact ⟨_, stop, hstop, hseen⟩
  · split at h
    · next hshape =>
      obtain ⟨before, after, rfl, rfl⟩ := h
      simp only [children, hshape] at hall
      obtain ⟨start, hbefore, stop, hstop, -⟩ := afterAll?_append_cons hall
      refine ⟨start, stop, hstop, hseen.append (fun x hx => hin.2 x ?_) hbefore⟩
      rw [children, hshape]
      exact List.mem_append_left _ hx
    · obtain ⟨before, after, hchildren⟩ := List.append_of_mem h.2.1
      rw [hchildren] at hall
      obtain ⟨start, -, stop, hstop, -⟩ := afterAll?_append_cons hall
      rw [h.2.2]
      exact ⟨start, stop, hstop, .nil⟩
    · obtain ⟨before, after, hchildren⟩ := List.append_of_mem h.1
      rw [hchildren] at hall
      obtain ⟨start, hbefore, stop, hstop, -⟩ := afterAll?_append_cons hall
      rw [h.2]
      exact ⟨start, stop, hstop, hseen.mono (subset_of_afterAll? hbefore)⟩

/-- The labels of the operands of an action are bound behind its expression. -/
theorem BoundApart.operands (h : g.BoundApart seen bound) (hin : g.Within depth id)
    (hafter : after? g depth id bound = some bound') :
    g.BoundApart (seen ++ g.operands id) bound' := by
  unfold Grammar.operands
  split
  · next es hshape =>
    obtain ⟨depth, rfl⟩ := hin.exists_succ
    rcases after?_cases hafter with ⟨_, hother, -⟩ | ⟨_, _, hother, -⟩ | ⟨-, -, hall⟩
    · rw [hshape] at hother
      cases hother
    · rw [hshape] at hother
      cases hother
    · have hchildren : g.children id = es := by
        rw [children, hshape]
        rfl
      rw [hchildren] at hall
      exact h.append (fun e he => hin.2 e (hchildren ▸ he)) hall
  · exact h.snoc hin hafter

/-- Code that is in a rule that was gone through is in the scope of nodes with different labels. -/
theorem Sees.nodup (h : g.Sees id seen source nodes) (hin : g.Within depth id)
    (hafter : after? g depth id bound = some bound') (hseen : g.BoundApart seen bound) :
    (g.labels nodes).Nodup := by
  induction h generalizing depth bound bound' with
  | own => exact hseen.nodup
  | @action id e seen source hshape =>
    obtain ⟨depth, rfl⟩ := hin.exists_succ
    have hhands : g.Hands id seen e seen := hands_of_singleChild? (by rw [hshape]; rfl) seen
    obtain ⟨start, stop, hstop, hstart⟩ := hhands.exists_after? hin hafter hseen
    exact (hstart.operands (hin.2 _ hhands.mem_children) hstop).nodup
  | handed hhands _ ih =>
    obtain ⟨depth, rfl⟩ := hin.exists_succ
    obtain ⟨start, stop, hstop, hstart⟩ := hhands.exists_after? hin hafter hseen
    exact ih (hin.2 _ hhands.mem_children) hstop hstart

end

section

variable {a : Program.Action}

/-! ## Actions that code needs -/

/-- The actions that the code below a node needs, with the labels that it sees as parameters. -/
def needed (g : Grammar) (id : NodeId) (seen : List NodeId) : Set Program.Action :=
  {a | ∃ nodes, g.Sees id seen a.code nodes ∧ a.params = g.labels nodes}

theorem mem_needed : a ∈ g.needed id seen ↔
    ((g.shape id).code? = some a.code ∧ a.params = g.labels seen) ∨
    (∃ e, g.shape id = .action e a.code ∧ a.params = g.labels (seen ++ g.operands e)) ∨
    ∃ e seen', g.Hands id seen e seen' ∧ a ∈ g.needed e seen' := by
  constructor
  · rintro ⟨nodes, hsees, hparams⟩
    cases hsees with
    | own h => exact .inl ⟨h, hparams⟩
    | action h => exact .inr (.inl ⟨_, h, hparams⟩)
    | handed he h => exact .inr (.inr ⟨_, _, he, nodes, h, hparams⟩)
  · rintro (⟨h, hparams⟩ | ⟨e, h, hparams⟩ | ⟨e, seen', he, nodes, h, hparams⟩)
    · exact ⟨seen, .own h, hparams⟩
    · exact ⟨_, .action h, hparams⟩
    · exact ⟨nodes, .handed he h, hparams⟩

/-- A node without children needs no more than what it runs on its own. -/
theorem needed_of_children_eq_nil (h : g.children id = []) :
    g.needed id seen = {a | (g.shape id).code? = some a.code ∧ a.params = g.labels seen} := by
  ext a
  rw [mem_needed]
  refine ⟨?_, .inl⟩
  rintro (hown | ⟨e, hshape, -⟩ | ⟨e, seen', he, -⟩)
  · exact hown
  · have hchild := (hands_of_singleChild? (by rw [hshape]; rfl) seen).mem_children
    rw [h] at hchild
    cases hchild
  · have hchild := he.mem_children
    rw [h] at hchild
    cases hchild

theorem needed_action (h : g.shape id = .action e source) :
    g.needed id seen = g.needed e seen ∪ {⟨g.labels (seen ++ g.operands e), source⟩} := by
  ext ⟨params, code⟩
  rw [mem_needed]
  simp [Shape.code?, Hands, children, h, Shape.children, Shape.singleChild?, or_comm, and_comm,
    eq_comm]

/-- A node that runs nothing needs what its children need. -/
theorem needed_eq (hcode : (g.shape id).code? = none)
    (haction : ∀ e source, g.shape id ≠ .action e source) :
    g.needed id seen = {a | ∃ e seen', g.Hands id seen e seen' ∧ a ∈ g.needed e seen'} := by
  ext a
  rw [mem_needed, hcode]
  refine ⟨?_, fun h => .inr (.inr h)⟩
  rintro (⟨hown, -⟩ | ⟨e, hshape, -⟩ | h)
  · cases hown
  · exact absurd hshape (haction e _)
  · exact h

theorem needed_of_singleChild? (h : (g.shape id).singleChild? = some e)
    (haction : ∀ e source, g.shape id ≠ .action e source) : g.needed id seen = g.needed e seen := by
  have hcode : (g.shape id).code? = none := by
    cases hshape : g.shape id
    all_goals simp_all [Shape.code?, Shape.singleChild?]
  rw [needed_eq hcode haction]
  simp [hands_iff_of_singleChild? h]

theorem needed_choice (h : g.shape id = .choice es) :
    g.needed id seen = ⋃ e ∈ es, g.needed e seen := by
  rw [needed_eq (by simp [h, Shape.code?]) (by simp [h])]
  ext a
  simp [Hands, children, h, Shape.children]

/-- The actions that the code below the elements of a sequence needs. -/
def neededAll (g : Grammar) : List NodeId → List NodeId → Set Program.Action
  | [], _ => ∅
  | e :: rest, seen => g.needed e seen ∪ neededAll g rest (seen ++ [e])

theorem mem_neededAll : a ∈ g.neededAll es seen ↔
    ∃ before e after, es = before ++ e :: after ∧ a ∈ g.needed e (seen ++ before) := by
  induction es generalizing seen with
  | nil => simp [neededAll]
  | cons e rest ih =>
    rw [neededAll, Set.mem_union, ih]
    constructor
    · rintro (ha | ⟨before, e', after, rfl, ha⟩)
      · exact ⟨[], e, rest, rfl, by rwa [List.append_nil]⟩
      · exact ⟨e :: before, e', after, rfl, by rwa [List.append_cons]⟩
    · rintro ⟨before, e', after, hes, ha⟩
      cases before with
      | nil =>
        obtain ⟨rfl, rfl⟩ := List.cons.inj hes
        exact .inl (by rwa [List.append_nil] at ha)
      | cons _ before =>
        obtain ⟨rfl, rfl⟩ := List.cons.inj hes
        exact .inr ⟨before, e', after, rfl, by rwa [List.append_cons] at ha⟩

theorem needed_sequence (h : g.shape id = .sequence es) :
    g.needed id seen = g.neededAll es seen := by
  rw [needed_eq (by simp [h, Shape.code?]) (by simp [h])]
  ext a
  rw [mem_neededAll]
  simp only [Hands, h, Set.mem_ofPred_eq]
  constructor
  · rintro ⟨e, _, ⟨before, after, hes, rfl⟩, ha⟩
    exact ⟨before, e, after, hes, ha⟩
  · rintro ⟨before, e, after, hes, ha⟩
    exact ⟨e, _, ⟨before, after, hes, rfl⟩, ha⟩

theorem needed_range {min : UInt32} {max : Option UInt32} {delimiter : Option NodeId}
    (h : g.shape id = .range min max e delimiter) :
    g.needed id seen = if max = some 0 ∧ min = 0 then ∅
      else g.needed e [] ∪ ⋃ d ∈ delimiter, g.needed d [] := by
  rw [needed_eq (by simp [h, Shape.code?]) (by simp [h])]
  ext a
  simp only [Hands, children, h, Shape.children, Set.mem_ofPred_eq]
  split
  · next hnone => simp [hnone]
  · next hsome => simp [hsome]

end

end Grammar

end PegMachine
