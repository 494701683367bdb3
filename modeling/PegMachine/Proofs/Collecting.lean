import PegMachine.Proofs.Prepared
import PegMachine.Proofs.Scoping

/-!
# Collecting actions

While code is generated for a node, the actions that it needs are added to the pool, with the labels
in scope as their parameters; of the labels in scope it only matters which ones there are, and in
which order. Behind a node there is its own label more in scope, or those of its operands where it
ends in an action.
-/

namespace PegMachine

theorem Pools.mem_entry {α : Type} [DecidableEq α] {pool : Array α} {a x : α} :
    x ∈ (entry pool a).2 ↔ x ∈ pool ∨ x = a := by
  unfold entry
  split
  · next index h =>
    obtain ⟨hlt, ha, -⟩ := Array.findIdx?_eq_some_iff_getElem.mp h
    have hmem : a ∈ pool := of_decide_eq_true ha ▸ Array.getElem_mem hlt
    exact ⟨.inl, fun hx => hx.elim id fun hx => hx ▸ hmem⟩
  · exact Array.mem_push

namespace Generate

open Code

variable {α β : Type} {U V : Set Program.Action} {Q : α → Prop} {R : β → Prop}

/-- Nothing is added to the pool of actions. -/
def Silent (m : Generate α) : Prop := ∀ p a q, m p = .ok (a, q) → q.actions = p.actions

/-- A set of actions is added to the pool, and what is generated has a property. -/
def Collects (U : Set Program.Action) (Q : α → Prop) (m : Generate α) : Prop :=
  ∀ p a q, m p = .ok (a, q) → Q a ∧ ∀ x, x ∈ q.actions ↔ x ∈ p.actions ∨ x ∈ U

theorem silent_pure (a : α) : Silent (pure a) := fun _ _ _ h => by rw [(pure_eq_ok.mp h).2]

theorem silent_fail (e : GenerateError) : Silent (fail e : Generate α) := fun _ _ _ h => nomatch h

theorem silent_constant (c : Program.Constant) : Silent (constant c) := by
  intro p a q h
  cases h
  rfl

theorem silent_defect (message : String) (location : Option Location) :
    Silent (defect message location) := by
  intro p a q h
  cases h
  rfl

theorem silent_branch (opcode : Opcode) (operands : List UInt32) (held otherwise : Code) :
    Silent (branch opcode operands held otherwise) :=
  fun _ _ _ h => by rw [(branch_eq_ok.mp h).2.2]

theorem silent_loop (body : Code) : Silent (loop body) :=
  fun _ _ _ h => by rw [(loop_eq_ok.mp h).2.2]

theorem silent_call (f : UInt32) (replaced : Nat) (scope : Scope) (height : Nat) :
    Silent (call f replaced scope height) := by
  intro p i q h
  obtain ⟨_, -, rfl, -⟩ := call_eq_ok h
  rfl

theorem Silent.bind {m : Generate α} {f : α → Generate β} (hm : Silent m) (hf : ∀ a, Silent (f a)) :
    Silent (m >>= f) := by
  intro p b q hb
  obtain ⟨a, p', ha, hb⟩ := bind_eq_ok.mp hb
  exact (hf a _ _ _ hb).trans (hm _ _ _ ha)

theorem Silent.map {m : Generate α} {f : α → β} (hm : Silent m) : Silent (do return f (← m)) :=
  hm.bind fun _ => silent_pure _

/-! ### Code that runs no action -/

theorem silent_terminal (opcode : Opcode) (operands : List UInt32) (accept : Instr) (e : UInt32) :
    Silent (terminal opcode operands accept e) := (silent_branch _ _ _ _).map

theorem silent_literal (value : String) (ignoreCase : Bool) :
    Silent (literal value ignoreCase) := by
  rw [literal]
  split
  · exact (silent_constant _).map
  · split
    all_goals exact (silent_constant _).bind fun c => (silent_constant _).bind fun e =>
      silent_terminal _ _ _ _

theorem silent_charClass (parts : List ClassPart) (inverted ignoreCase : Bool) (raw : String)
    (location : Option Location) : Silent (charClass parts inverted ignoreCase raw location) := by
  have hdefects (messages : List String) :
      Silent (messages.forM fun message => defect message location) := by
    induction messages with
    | nil => exact silent_pure ()
    | cons message rest ih => exact (silent_defect message location).bind fun _ => ih
  refine (hdefects _).bind fun _ => (silent_constant _).bind fun e => ?_
  split
  · split
    · exact silent_terminal _ _ _ _
    · exact silent_pure _
  · exact (silent_constant _).bind fun r => silent_terminal _ _ _ _

theorem silent_regex (value : String) (ignoreCase multiLine : Bool) (raw : String)
    (location : Option Location) : Silent (regex value ignoreCase multiLine raw location) := by
  have hrest : Silent (do
      let r ← pattern value ignoreCase multiLine
      let e ← expectation (.regex raw)
      terminal .matchRegexp [r] (op1 .acceptRegexp r) e) :=
    (silent_constant _).bind fun r => (silent_constant _).bind fun e => silent_terminal _ _ _ _
  rw [regex]
  split
  · exact (silent_defect _ _).bind fun _ => hrest
  · exact hrest

theorem silent_simplePredicate (e : Code) (negative : Bool) :
    Silent (simplePredicate e negative) := by
  cases negative
  all_goals exact (silent_branch _ _ _ _).map

theorem silent_named (e : UInt32) (code : Code) : Silent (named e code) :=
  (silent_branch _ _ _ _).map

theorem silent_choice (codes : List Code) : Silent (choice codes) := by
  induction codes with
  | nil => exact silent_pure _
  | cons first rest ih =>
    cases rest with
    | nil => exact silent_pure _
    | cons second rest => exact ih.bind fun others => (silent_branch _ _ _ _).map

theorem silent_text (e : Code) : Silent (text e) := (silent_branch _ _ _ _).map

theorem silent_optional (e : Code) : Silent (optional e) := (silent_branch _ _ _ _).map

theorem silent_zeroOrMore (e : Code) : Silent (zeroOrMore e) := (silent_loop _).map

theorem silent_oneOrMore (e : Code) : Silent (oneOrMore e) :=
  (silent_loop _).bind fun _ => (silent_branch _ _ _ _).map

theorem silent_delimited (delimiter e : Code) : Silent (delimited delimiter e) :=
  (silent_branch _ _ _ _).bind fun _ => (silent_branch _ _ _ _).map

theorem silent_range (min : UInt32) (max : Option UInt32) (first further : Code) :
    Silent (range min max first further) := by
  have hwhole (bounded : Code) : Silent (do
      let loop ← appendLoop bounded
      let main := [op .pushEmptyArray] ++ first ++ [loop, op .pop]
      if min = 0 then return main
      let test ← branch .ifArrlenMin [min] restoreAndFail [op .nip]
      return [op .pushCurrPos] ++ main ++ [test]) := by
    refine (silent_loop _).bind fun again => ?_
    dsimp only
    split
    · exact silent_pure _
    · exact (silent_branch _ _ _ _).map
  cases max with
  | none => exact hwhole further
  | some max => exact (silent_branch _ _ _ _).bind fun test => hwhole [test]

theorem silent_nest (tail : Code) (place : Nat) (codes : List Code) :
    Silent (nest tail place codes) := by
  induction codes generalizing place with
  | nil => exact silent_pure _
  | cons code codes ih => exact (ih (place + 1)).bind fun inner => (silent_branch _ _ _ _).map

/-! ### Code that runs actions -/

theorem Silent.collects {m : Generate α} (h : Silent m) : Collects ∅ (fun _ => True) m :=
  fun p a q hm => ⟨trivial, fun x => by simp [h p a q hm]⟩

theorem collects_pure {a : α} (h : Q a) : Collects ∅ Q (pure a) := by
  intro p b q hb
  obtain ⟨rfl, rfl⟩ := pure_eq_ok.mp hb
  exact ⟨h, fun x => by simp⟩

theorem collects_action (params : List String) (source : String) :
    Collects {⟨params, source⟩} (fun _ => True) (action params source) := by
  intro p w q h
  refine ⟨trivial, fun x => ?_⟩
  cases h
  exact Pools.mem_entry

namespace Collects

variable {m : Generate α} {f : α → Generate β}

theorem congr (h : Collects U Q m) (hUV : U = V) : Collects V Q m := hUV ▸ h

theorem bind (hm : Collects U Q m) (hf : ∀ a, Q a → Collects V R (f a)) :
    Collects (U ∪ V) R (m >>= f) := by
  intro p b q hb
  obtain ⟨a, p', ha, hb⟩ := bind_eq_ok.mp hb
  obtain ⟨hQ, hU⟩ := hm _ _ _ ha
  obtain ⟨hR, hV⟩ := hf a hQ _ _ _ hb
  exact ⟨hR, fun x => by rw [hV, hU, Set.mem_union, or_assoc]⟩

/-- What comes behind adds nothing. -/
theorem before (hm : Collects U Q m) (hf : ∀ a, Silent (f a)) :
    Collects U (fun _ => True) (m >>= f) :=
  (hm.bind fun a _ => (hf a).collects).congr (Set.union_empty U)

theorem map {f : α → β} (hm : Collects U Q m) (hf : ∀ a, Q a → R (f a)) :
    Collects U R (f <$> m) := by
  intro p b q hb
  obtain ⟨a, ha, rfl⟩ := map_eq_ok.mp hb
  obtain ⟨hQ, hU⟩ := hm _ _ _ ha
  exact ⟨hf a hQ, hU⟩

theorem mapM {γ : Type} {U : γ → Set Program.Action} {f : γ → Generate β} {as : List γ}
    (hf : ∀ a ∈ as, Collects (U a) (fun _ => True) (f a)) :
    Collects (⋃ a ∈ as, U a) (fun _ => True) (as.mapM f) := by
  induction as with
  | nil => exact (collects_pure trivial).congr (by simp)
  | cons a as ih =>
    obtain ⟨ha, has⟩ := List.forall_mem_cons.mp hf
    rw [List.mapM_cons]
    refine (ha.bind fun b _ => (ih has).before fun bs => silent_pure (b :: bs)).congr ?_
    ext x
    simp

/-- What comes in front adds nothing. -/
theorem of_silent (hm : Silent m) (hf : ∀ a, Collects V R (f a)) : Collects V R (m >>= f) :=
  (hm.collects.bind fun a _ => hf a).congr (Set.empty_union V)

theorem returns {f : α → β} (hm : Collects U Q m) (hf : ∀ a, Q a → R (f a)) :
    Collects U R (do return f (← m)) :=
  (hm.bind (V := ∅) fun a ha => collects_pure (hf a ha)).congr (Set.union_empty U)

/-- Code that is generated for an expression that leaves a scope behind. -/
theorem within {m : Generate Code} {Q : Code → Prop} {scope : Scope} {labels : List String}
    (hm : Collects U Q m) (hscope : scope.labels = labels) :
    Collects U (fun r : Code × Scope => r.2.labels = labels) (do return (← m, scope)) :=
  hm.returns fun _ _ => hscope

/-- Code around the code of an expression. -/
theorem wrapped {m : Generate α} {f : α → Generate Code} {scope : Scope} {labels : List String}
    (hm : Collects U Q m) (hf : ∀ a, Silent (f a)) (hscope : scope.labels = labels) :
    Collects U (fun r : Code × Scope => r.2.labels = labels)
      (m >>= fun a => do return (← f a, scope)) :=
  (hm.bind fun a _ => (hf a).collects.within hscope).congr (Set.union_empty U)

end Collects

theorem collects_codeTerminal (source : String) (scope : Scope) (height : Nat) :
    Collects {⟨scope.labels, source⟩} (fun _ => True) (codeTerminal source scope height) :=
  (collects_action _ _).before fun _ => (silent_constant _).bind fun _ =>
    (silent_call _ _ _ _).bind fun _ => (silent_branch _ _ _ _).map

theorem collects_semanticPredicate (source : String) (negative : Bool) (scope : Scope)
    (height : Nat) : Collects {⟨scope.labels, source⟩} (fun _ => True)
      (semanticPredicate source negative scope height) := by
  refine (collects_action _ _).before fun f => (silent_call _ _ _ _).bind fun run => ?_
  cases negative
  all_goals exact (silent_branch _ _ _ _).map

theorem collects_actionAround (e : Code) (source : String) (scope : Scope) (height : Nat) :
    Collects {⟨scope.labels, source⟩} (fun _ => True) (actionAround e source scope height) :=
  (collects_action _ _).before fun _ => (silent_call _ _ _ _).bind fun _ =>
    (silent_branch _ _ _ _).map

theorem collects_sequenceEnd (n : Nat) (action? : Option String) (scope : Scope) (height : Nat) :
    Collects {a | a.params = scope.labels ∧ action? = some a.code} (fun _ => True)
      (sequenceEnd n action? scope height) := by
  cases action? with
  | none => exact (silent_pure _).collects.congr (by simp)
  | some source =>
    refine ((collects_action _ _).before fun f => (silent_call _ _ _ _).map).congr ?_
    ext ⟨params, code⟩
    simp [eq_comm]

section

variable {g : Grammar} {f : Facts} {id : NodeId} {seen es : List NodeId} {scope : Scope}
  {height : Nat} {action? : Option String}

theorem collects_elements {node : NodeId → Nat → Scope → Generate (Code × Scope)}
    (hnode : ∀ e ∈ es, ∀ height scope seen, scope.labels = g.labels seen →
      Collects (g.needed e seen) (fun r => r.2.labels = g.labels (seen ++ [e]))
        (node e height scope))
    (hscope : scope.labels = g.labels seen) :
    Collects (g.neededAll es seen) (fun r => r.2.labels = g.labels (seen ++ es))
      (elements node es height scope) := by
  induction es generalizing height scope seen with
  | nil =>
    rw [List.append_nil]
    exact collects_pure hscope
  | cons e rest ih =>
    obtain ⟨he, hrest⟩ := List.forall_mem_cons.mp hnode
    refine (he height scope seen hscope).bind fun r hr => (ih hrest hr).returns fun rs hrs => ?_
    rw [List.append_cons]
    exact hrs

/-! ## Expressions -/

/-- The nodes that there are more in scope behind a node: the node itself, or its operands where it
ends in an action. -/
def behind (g : Grammar) (id : NodeId) (action? : Option String) : List NodeId :=
  if action?.isSome then g.operands id else [id]

/-- What a sequence needs that ends in an action. -/
def ending (g : Grammar) (id : NodeId) (seen : List NodeId) (action? : Option String) :
    Set Program.Action :=
  {a | (∃ es, g.shape id = .sequence es) ∧ a.params = g.labels (seen ++ g.operands id) ∧
    action? = some a.code}

theorem ending_none : ending g id seen none = ∅ := by simp [ending]

theorem ending_of_ne (h : ∀ es, g.shape id ≠ .sequence es) (action? : Option String) :
    ending g id seen action? = ∅ := by simp [ending, h]

theorem exists_sequence_of_takesOver {s : Shape} (h : takesOver s = true) :
    ∃ es, s = .sequence es := by
  cases s
  case sequence es => exact ⟨es, rfl⟩
  all_goals cases h

theorem ending_subset {source : String} :
    ending g id seen (some source) ⊆ {⟨g.labels (seen ++ g.operands id), source⟩} := by
  rintro ⟨params, code⟩ ⟨-, rfl, hcode⟩
  rw [Option.some.inj hcode]
  rfl

theorem ending_sequence {source : String} (h : g.shape id = .sequence es) :
    ending g id seen (some source) = {⟨g.labels (seen ++ g.operands id), source⟩} := by
  ext ⟨params, code⟩
  simp [ending, h, eq_comm]

theorem operands_of_ne (h : ∀ es, g.shape id ≠ .sequence es) : g.operands id = [id] := by
  unfold Grammar.operands
  split
  · next hshape => exact absurd hshape (h _)
  · rfl

theorem behind_of_ne (h : ∀ es, g.shape id ≠ .sequence es) (action? : Option String) :
    behind g id action? = [id] := by simp [behind, operands_of_ne h]

theorem labels_bind {scope : Scope} {label : String} (h : label ∉ scope.labels) (slot : Nat) :
    (scope.bind label slot).labels = scope.labels ++ [label] := by
  induction scope with
  | nil => rfl
  | cons first rest ih =>
    obtain ⟨other, s⟩ := first
    rw [Scope.labels, List.map_cons, List.mem_cons, not_or] at h
    rw [Scope.bind, if_neg (Ne.symm h.1)]
    exact congrArg (other :: ·) (ih h.2)

/-- What is generated for a node that is in the scope of some nodes: the actions that it needs are
added, and the labels of the nodes that are in scope behind it are left. -/
def Covers (g : Grammar) (id : NodeId) (seen : List NodeId) (action? : Option String)
    (m : Generate (Code × Scope)) : Prop :=
  Collects (g.needed id seen ∪ ending g id seen action?)
    (fun r => r.2.labels = g.labels (seen ++ behind g id action?)) m

/-- Most nodes carry no label and take no action over, so they leave the scope as it is. -/
theorem covers_of_ne {m : Generate (Code × Scope)} (hsequence : ∀ es, g.shape id ≠ .sequence es)
    (hlabel : g.label? id = none)
    (h : Collects (g.needed id seen) (fun r => r.2.labels = g.labels seen) m) :
    Covers g id seen action? m := by
  rwa [Covers, ending_of_ne hsequence, Set.union_empty, behind_of_ne hsequence,
    Grammar.labels_snoc, hlabel, Option.toList_none, List.append_nil]

section

variable {below : NodeId → Nat → Scope → Option String → Generate (Code × Scope)}
  (hbelow : ∀ e ∈ g.children id, ∀ height scope seen action?, scope.labels = g.labels seen →
    Covers g e seen action? (below e height scope action?))
  (hscope : scope.labels = g.labels seen)

include hbelow

/-- Where a child ends in no action, its own label is one more in scope behind it. -/
theorem collects_below {e : NodeId} (he : e ∈ g.children id) {seen : List NodeId} {scope : Scope}
    (hscope : scope.labels = g.labels seen) (height : Nat) :
    Collects (g.needed e seen) (fun r => r.2.labels = g.labels (seen ++ [e]))
      (below e height scope none) :=
  (hbelow e he height scope seen none hscope).congr (by rw [ending_none, Set.union_empty])

theorem collects_child {e : NodeId} (he : e ∈ g.children id) {seen : List NodeId} {scope : Scope}
    (hscope : scope.labels = g.labels seen) (height : Nat) :
    Collects (g.needed e seen) (fun _ => True) ((·.1) <$> below e height scope none) :=
  (collects_below hbelow he hscope height).map fun _ _ => trivial

include hscope

theorem covers_of_singleChild? {s : Shape} {e : NodeId} (hshape : g.shape id = s)
    (hs : s.singleChild? = some e) (haction : ∀ e source, s ≠ .action e source)
    (hlabel : s.label? = none) {around : Code → Generate Code}
    (haround : ∀ c, Silent (around c)) (height : Nat) :
    Covers g id seen action?
      (do return (← around (← (·.1) <$> below e height scope none), scope)) := by
  subst hshape
  have he : e ∈ g.children id := (Grammar.hands_of_singleChild? hs seen).mem_children
  refine covers_of_ne (fun es hes => ?_) hlabel
    (((collects_child hbelow he hscope height).wrapped haround hscope).congr
      (Grammar.needed_of_singleChild? hs haction).symm)
  rw [hes] at hs
  cases hs

theorem covers_action {e : NodeId} {source : String} (hshape : g.shape id = .action e source) :
    Covers g id seen action? (level g f below id height scope action?) := by
  have he : e ∈ g.children id :=
    (Grammar.hands_of_singleChild? (by rw [hshape]; rfl) seen).mem_children
  refine covers_of_ne (by simp [hshape]) (Grammar.label?_of_ne (by simp [hshape])) ?_
  rw [Grammar.needed_action hshape]
  simp only [level, hshape]
  split
  · -- The sequence adds the action.
    next htakes =>
    obtain ⟨es, hes⟩ := exists_sequence_of_takesOver htakes
    rw [← ending_sequence hes]
    exact (hbelow e he height scope seen (some source) hscope).returns fun _ _ => hscope
  · have haround (r : Code × Scope) (hr : r.2.labels = g.labels (seen ++ g.operands e)) :
        Collects {⟨g.labels (seen ++ g.operands e), source⟩} (fun _ => True)
          (actionAround r.1 source r.2 height) := hr ▸ collects_actionAround r.1 source r.2 height
    -- A sequence without elements adds the action too, and it is the same one.
    refine ((hbelow e he (height + 1) scope seen (some source) hscope).bind fun r hr =>
      (haround r hr).within hscope).congr ?_
    rw [Set.union_assoc, Set.union_eq_right.mpr ending_subset]

theorem covers_sequence (hshape : g.shape id = .sequence es) :
    Covers g id seen action? (level g f below id height scope action?) := by
  have hes : g.children id = es := by
    rw [Grammar.children, hshape]
    rfl
  have hoperands : g.operands id = es := by rw [Grammar.operands, hshape]
  have hend (r : List Code × Scope) (hr : r.2.labels = g.labels (seen ++ es)) (height : Nat) :
      Collects {a | a.params = g.labels (seen ++ es) ∧ action? = some a.code} (fun _ => True)
        (sequenceEnd es.length action? r.2 height) :=
    hr ▸ collects_sequenceEnd es.length action? r.2 height
  have hleft (inner : Scope) (hinner : inner.labels = g.labels (seen ++ es)) :
      (if action?.isSome then inner else scope).labels =
        g.labels (seen ++ behind g id action?) := by
    cases action? with
    | none =>
      change scope.labels = g.labels (seen ++ [id])
      rw [Grammar.labels_snoc, Grammar.label?_of_ne (by simp [hshape]), Option.toList_none,
        List.append_nil, hscope]
    | some source => simpa [behind, hoperands] using hinner
  rw [Covers, Grammar.needed_sequence hshape]
  simp only [level, hshape]
  refine ((collects_elements (fun e he height scope seen hscope =>
    collects_below hbelow (hes ▸ he) hscope height) hscope).bind fun r hr =>
      (hend r hr _).bind fun tail _ => (silent_nest tail 0 r.1).collects.returns
        (f := fun code => (op .pushCurrPos :: code, if action?.isSome then r.2 else scope))
        fun code _ => hleft r.2 hr).congr ?_
  ext a
  simp [ending, hshape, hoperands]

theorem covers_labeled {label : Option String} {e : NodeId} (hshape : g.shape id = .labeled label e)
    (hfresh : ∀ l ∈ label, l ∉ scope.labels) :
    Covers g id seen action? (level g f below id height scope action?) := by
  have hsingle : (g.shape id).singleChild? = some e := by
    rw [hshape]
    rfl
  have he : e ∈ g.children id := (Grammar.hands_of_singleChild? hsingle seen).mem_children
  have hlabel : g.label? id = label := by rw [Grammar.label?, hshape, Shape.label?]
  rw [Covers, ending_of_ne (by simp [hshape]), Set.union_empty, behind_of_ne (by simp [hshape]),
    Grammar.needed_of_singleChild? hsingle (by simp [hshape])]
  simp only [level, hshape]
  refine (collects_child hbelow he hscope height).returns fun code _ => ?_
  rw [Grammar.labels_snoc, hlabel, ← hscope]
  cases label with
  | none => exact (List.append_nil _).symm
  | some label => exact labels_bind (hfresh label rfl) height

theorem covers_range {min : UInt32} {max : Option UInt32} {e : NodeId} {delimiter : Option NodeId}
    (hshape : g.shape id = .range min max e delimiter) :
    Covers g id seen action? (level g f below id height scope action?) := by
  have hchildren : g.children id = e :: delimiter.toList := by
    rw [Grammar.children, hshape]
    rfl
  have he : e ∈ g.children id := hchildren ▸ List.mem_cons_self
  have hisolated {x : NodeId} (hx : x ∈ g.children id) (height : Nat) :
      Collects (g.needed x []) (fun _ => True) ((·.1) <$> below x height [] none) :=
    collects_child hbelow hx rfl height
  refine covers_of_ne (by simp [hshape]) (Grammar.label?_of_ne (by simp [hshape])) ?_
  rw [Grammar.needed_range hshape]
  simp only [level, hshape]
  split
  · exact collects_pure hscope
  · cases delimiter with
    | none =>
      refine ((hisolated he _).wrapped (fun first => silent_range min max first first)
        hscope).congr ?_
      simp
    | some d =>
      have hd : d ∈ g.children id := by simp [hchildren]
      -- Code for what is repeated is generated twice, which adds nothing the second time.
      refine ((hisolated he _).bind fun first _ => (hisolated hd _).bind fun between _ =>
        (hisolated he _).bind fun again _ => .of_silent (silent_delimited between again)
          fun further => (silent_range min max first further).collects.within hscope).congr ?_
      ext a
      simp
      tauto

end

section

variable {s : Shape} {m : Generate Code} (hscope : scope.labels = g.labels seen)
  (hshape : g.shape id = s) (hchildren : s.children = []) (hsequence : ∀ es, s ≠ .sequence es)
include hscope hshape hchildren hsequence

/-- Nodes without children leave the scope as it is and add what they run on their own. -/
theorem covers_leaf
    (hm : Collects {a | s.code? = some a.code ∧ a.params = g.labels seen} (fun _ => True) m) :
    Covers g id seen action? (do return (← m, scope)) := by
  subst hshape
  refine covers_of_ne hsequence (Grammar.label?_of_ne fun label e hlabeled => ?_)
    ((hm.within hscope).congr (Grammar.needed_of_children_eq_nil hchildren).symm)
  rw [hlabeled] at hchildren
  cases hchildren

theorem covers_silent (hcode : s.code? = none) (hm : Silent m) :
    Covers g id seen action? (do return (← m, scope)) :=
  covers_leaf hscope hshape hchildren hsequence (hm.collects.congr (by simp [hcode]))

theorem covers_code {source : String} (hcode : s.code? = some source)
    (hm : Collects {⟨scope.labels, source⟩} (fun _ => True) m) :
    Covers g id seen action? (do return (← m, scope)) := by
  refine covers_leaf hscope hshape hchildren hsequence (hm.congr ?_)
  ext ⟨params, code⟩
  simp [hcode, hscope, and_comm, eq_comm]

end

/-- Code for a node covers it if code for its children does. -/
theorem level_covers {below : NodeId → Nat → Scope → Option String → Generate (Code × Scope)}
    (hbelow : ∀ e ∈ g.children id, ∀ height scope seen action?, scope.labels = g.labels seen →
      Covers g e seen action? (below e height scope action?))
    (hscope : scope.labels = g.labels seen) (hfresh : ∀ label ∈ g.label? id, label ∉ scope.labels) :
    Covers g id seen action? (level g f below id height scope action?) := by
  rw [level]
  cases hshape : g.shape id with
  | action e source => simpa only [level, hshape] using covers_action (f := f) hbelow hscope hshape
  | sequence es => simpa only [level, hshape] using covers_sequence (f := f) hbelow hscope hshape
  | labeled label e =>
    rw [Grammar.label?, hshape, Shape.label?] at hfresh
    simpa only [level, hshape] using covers_labeled (f := f) hbelow hscope hshape hfresh
  | range min max e delimiter =>
    simpa only [level, hshape] using covers_range (f := f) hbelow hscope hshape
  | choice alternatives =>
    have hchildren : g.children id = alternatives := by
      rw [Grammar.children, hshape]
      rfl
    refine covers_of_ne (by simp [hshape]) (Grammar.label?_of_ne (by simp [hshape])) ?_
    rw [Grammar.needed_choice hshape]
    exact (Collects.mapM fun e he =>
      collects_child hbelow (hchildren ▸ he) hscope height).wrapped silent_choice hscope
  | named name e =>
    exact .of_silent (silent_constant _) fun expected =>
      covers_of_singleChild? hbelow hscope hshape rfl (by simp) rfl (silent_named expected) height
  | text e =>
    exact covers_of_singleChild? hbelow hscope hshape rfl (by simp) rfl silent_text (height + 1)
  | simpleAnd e =>
    exact covers_of_singleChild? hbelow hscope hshape rfl (by simp) rfl
      (silent_simplePredicate · false) (height + 1)
  | simpleNot e =>
    exact covers_of_singleChild? hbelow hscope hshape rfl (by simp) rfl
      (silent_simplePredicate · true) (height + 1)
  | optional e =>
    exact covers_of_singleChild? hbelow hscope hshape rfl (by simp) rfl silent_optional height
  | zeroOrMore e =>
    exact covers_of_singleChild? hbelow hscope hshape rfl (by simp) rfl silent_zeroOrMore
      (height + 1)
  | oneOrMore e =>
    exact covers_of_singleChild? hbelow hscope hshape rfl (by simp) rfl silent_oneOrMore
      (height + 1)
  | semanticAnd source =>
    exact covers_code hscope hshape rfl (by simp) rfl
      (collects_semanticPredicate source false scope height)
  | semanticNot source =>
    exact covers_code hscope hshape rfl (by simp) rfl
      (collects_semanticPredicate source true scope height)
  | ruleRef name =>
    cases f.target? id with
    | none =>
      intro p r q h
      cases h
    | some rule => exact covers_silent hscope hshape rfl (by simp) rfl (silent_pure _)
  | literal value ignoreCase =>
    exact covers_silent hscope hshape rfl (by simp) rfl (silent_literal value ignoreCase)
  | charClass parts inverted ignoreCase raw =>
    exact covers_silent hscope hshape rfl (by simp) rfl
      (silent_charClass parts inverted ignoreCase raw _)
  | regex value ignoreCase multiLine raw =>
    exact covers_silent hscope hshape rfl (by simp) rfl
      (silent_regex value ignoreCase multiLine raw _)
  | any =>
    exact .of_silent (silent_constant _) fun e =>
      covers_silent hscope hshape rfl (by simp) rfl (silent_terminal _ _ _ e)
  | epsilon =>
    exact .of_silent (silent_constant _) fun c =>
      covers_silent hscope hshape rfl (by simp) rfl (silent_pure _)
  | code source =>
    exact covers_code hscope hshape rfl (by simp) rfl (collects_codeTerminal source scope height)

end

end Generate

end PegMachine
