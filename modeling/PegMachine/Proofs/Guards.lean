import PegMachine.Proofs.Marks
import PegMachine.Proofs.Trees

/-!
# Guarded expressions

An expression is guarded if nothing in it can go on forever: whatever is repeated without a bound
consumes something, and a rule that is begun where the expression is begun is of a lower rank. After
something was consumed, any rule may be begun. That a grammar makes progress is a matter of its
structure alone, and survives changes that only rename rules to ones of no greater rank and move
labels about.
-/

namespace PegMachine

open Peg

namespace Grammar

/-! ## Guards -/

/-- One node after another is guarded, where any rule may be begun behind one that consumes
something. -/
def Led (eats : NodeId → Prop) (guarded : (String → Prop) → NodeId → Prop) :
    (String → Prop) → List NodeId → Prop
  | _, [] => True
  | low, e :: rest => guarded low e ∧ Led eats guarded (fun name => eats e ∨ low name) rest

/-- A node is guarded, given which nodes consume something and which rules may be begun at once. -/
def Guarded (g : Grammar) (eats : NodeId → Prop) : Nat → (String → Prop) → NodeId → Prop
  | 0, _, _ => False
  | depth + 1, low, id => id < g.nodes.size ∧
    match g.shape id with
    | .sequence es => Led eats (Guarded g eats depth) low es
    | .range _ max e delimiter => Led eats (Guarded g eats depth) low (e :: delimiter.toList) ∧
        (max = none → eats e ∨ ∃ d ∈ delimiter, eats d)
    | .zeroOrMore e | .oneOrMore e => eats e ∧ Guarded g eats depth low e
    | .ruleRef name => low name
    | shape => ∀ e ∈ shape.children, Guarded g eats depth low e

/-- A grammar makes progress: what is marked consumes something, and rules are guarded by ranks. -/
structure Progress (g : Grammar) (eats : NodeId → Prop) (rule : String → Prop)
    (rank : String → Nat) : Prop where
  node : ∀ id, eats id → g.Owned id ∧ Consuming eats rule (g.shape id)
  root : ∀ r ∈ g.rules, rule r.name → eats r.expression
  guarded : ∀ r ∈ g.rules,
    g.Guarded eats g.depthBound (fun name => rank name < rank r.name) r.expression

section

variable {g g' : Grammar} {eats eats' : NodeId → Prop} {low low' : String → Prop}
  {depth depth' : Nat} {id : NodeId}

theorem Guarded.within (h : g.Guarded eats depth low id) : g.Within depth id := by
  have hled (depth : Nat) (ih : ∀ low id, g.Guarded eats depth low id → g.Within depth id)
      (es : List NodeId) (low : String → Prop) (h : Led eats (g.Guarded eats depth) low es) :
      ∀ e ∈ es, g.Within depth e := by
    induction es generalizing low with
    | nil => rintro e ⟨⟩
    | cons e es ihes =>
      intro e' he'
      rcases List.mem_cons.mp he' with rfl | he'
      · exact ih _ _ h.1
      · exact ihes _ h.2 e' he'
  induction depth generalizing low id with
  | zero => exact h.elim
  | succ depth ih =>
    obtain ⟨hlt, h⟩ := h
    refine ⟨hlt, ?_⟩
    rw [children]
    split at h
    · next es hshape =>
      rw [hshape]
      exact hled depth (fun _ _ => ih) es low h
    · next min max e delimiter hshape =>
      rw [hshape]
      exact hled depth (fun _ _ => ih) _ low h.1
    · next e hshape =>
      rw [hshape]
      simpa [Shape.children, Shape.singleChild?] using ih h.2
    · next e hshape =>
      rw [hshape]
      simpa [Shape.children, Shape.singleChild?] using ih h.2
    · next name hshape =>
      rw [hshape]
      rintro e ⟨⟩
    · exact fun e he => ih (h e he)

end

end Grammar

/-! ## Changes that keep progress -/

/-- Two shapes that differ at most in the rule that is referred to and in a label. -/
inductive Shape.Resembles (call : String → String → Prop) : Shape → Shape → Prop
  /-- They do not differ. -/
  | same {s : Shape} (h : ∀ name, s ≠ .ruleRef name) : Shape.Resembles call s s
  /-- They refer to rules. -/
  | ruleRef {name name' : String} (h : call name name') :
    Shape.Resembles call (.ruleRef name) (.ruleRef name')
  /-- They are labeled. -/
  | labeled (label label' : Option String) (e : NodeId) :
    Shape.Resembles call (.labeled label e) (.labeled label' e)

theorem Shape.Resembles.of_eq {call : String → String → Prop} (h : ∀ name, call name name)
    (s : Shape) : s.Resembles call s := by
  cases s
  case ruleRef name => exact .ruleRef (h name)
  all_goals exact .same nofun

theorem Shape.Resembles.children_eq {call : String → String → Prop} {s s' : Shape}
    (h : s.Resembles call s') : s'.children = s.children := by
  cases h <;> rfl

namespace Grammar

/-- A grammar is turned into another one: nodes differ at most in the rules they refer to and in
labels, and each rule is one of the rules before, perhaps with a label put on its root. -/
structure Reshapes (call : String → String → Prop) (g g' : Grammar) : Prop where
  size_le : g.nodes.size ≤ g'.nodes.size
  shape : ∀ id < g.nodes.size, (g.shape id).Resembles call (g'.shape id)
  rule : ∀ r' ∈ g'.rules, ∃ r ∈ g.rules, r'.name = r.name ∧
    (r'.expression = r.expression ∨
      g.nodes.size < g'.nodes.size ∧ r'.expression < g'.nodes.size ∧
        ∃ label, g'.shape r'.expression = .labeled label r.expression)

section

variable {call : String → String → Prop} {g g' : Grammar} {eats eats' : NodeId → Prop}
  {rule rule' : String → Prop} {low low' : String → Prop} {rank : String → Nat}

theorem Reshapes.children_eq (h : g.Reshapes call g') {id : NodeId} (hlt : id < g.nodes.size) :
    g'.children id = g.children id := (h.shape id hlt).children_eq

/-- What trees are turned into are trees. -/
theorem Reshapes.hasTrees (hre : g.Reshapes call g') (h : g.HasTrees) : g'.HasTrees := by
  intro r' hr'
  obtain ⟨r, hr, -, hroot | ⟨-, hlt, label, hlabeled⟩⟩ := hre.rule r' hr'
  · rw [hroot]
    exact (h r hr).congr hre.size_le fun id => hre.children_eq
  · refine .node hlt fun e he => ?_
    rw [children, hlabeled] at he
    rw [List.mem_singleton.mp he]
    exact (h r hr).congr hre.size_le fun id => hre.children_eq

theorem consuming_of_resembles {s s' : Shape} (hs : s.Resembles call s')
    (heats : ∀ e ∈ s.children, eats e → eats' e)
    (hcall : ∀ name name', call name name' → rule name → rule' name')
    (h : Consuming eats rule s) : Consuming eats' rule' s' := by
  have hone {e : NodeId} (hs : s.children = [e]) (he : eats e) : eats' e :=
    heats e (hs ▸ List.mem_singleton_self e) he
  cases hs with
  | ruleRef hname => exact hcall _ _ hname h
  | labeled label label' e => exact hone rfl h
  | same hs =>
    cases s
    case choice es => exact fun e he => heats e he (h e he)
    case sequence es =>
      obtain ⟨e, he, hmarked⟩ := h
      exact ⟨e, he, heats e he hmarked⟩
    case range min max e delimiter =>
      rcases h with ⟨hmin, hmarked⟩ | ⟨hmin, d, hd, hmarked⟩
      · exact .inl ⟨hmin, heats e List.mem_cons_self hmarked⟩
      · have hmem : d ∈ (Shape.range min max e delimiter).children :=
          List.mem_cons_of_mem _ (Option.mem_toList.mpr hd)
        exact .inr ⟨hmin, d, hd, heats d hmem hmarked⟩
    case ruleRef name => exact absurd rfl (hs name)
    case named name e => exact hone rfl h
    case action e source => exact hone rfl h
    case labeled label e => exact hone rfl h
    case text e => exact hone rfl h
    case oneOrMore e => exact hone rfl h
    all_goals exact h

theorem Led.mono {guarded guarded' : (String → Prop) → NodeId → Prop} {es : List NodeId}
    (heats : ∀ e ∈ es, eats e → eats' e)
    (hguarded : ∀ e ∈ es, ∀ low low', (∀ name name', call name name' → low name → low' name') →
      guarded low e → guarded' low' e)
    (hlow : ∀ name name', call name name' → low name → low' name')
    (h : Led eats guarded low es) : Led eats' guarded' low' es := by
  induction es generalizing low low' with
  | nil => trivial
  | cons e es ih =>
    obtain ⟨hfirst, hrest⟩ := h
    refine ⟨hguarded e List.mem_cons_self _ _ hlow hfirst, ih ?_ ?_ (fun name name' hname hor => ?_)
      hrest⟩
    · exact fun e' he' => heats e' (List.mem_cons_of_mem _ he')
    · exact fun e' he' => hguarded e' (List.mem_cons_of_mem _ he')
    · rcases hor with heat | hlowname
      · exact .inl (heats e List.mem_cons_self heat)
      · exact .inr (hlow name name' hname hlowname)

/-- A guarded expression stays guarded, where only what is among some nodes matters. -/
theorem Guarded.reshape {P : NodeId → Prop} (hsize : g.nodes.size ≤ g'.nodes.size)
    (hshape : ∀ id < g.nodes.size, (g.shape id).Resembles call (g'.shape id))
    (hchildren : ∀ id < g.nodes.size, P id → ∀ e ∈ g.children id, P e)
    (heats : ∀ id, P id → eats id → eats' id)
    (hlow : ∀ name name', call name name' → low name → low' name') {depth depth' : Nat}
    (hdepth : depth ≤ depth') {id : NodeId} (hid : P id) (h : g.Guarded eats depth low id) :
    g'.Guarded eats' depth' low' id := by
  induction depth generalizing depth' low low' id with
  | zero => exact h.elim
  | succ depth ih =>
    cases depth' with
    | zero => cases hdepth
    | succ depth' =>
      obtain ⟨hlt, h⟩ := h
      refine ⟨Nat.lt_of_lt_of_le hlt hsize, ?_⟩
      have hP := hchildren id hlt hid
      have hchild : ∀ e ∈ g.children id, ∀ low low',
          (∀ name name', call name name' → low name → low' name') →
          g.Guarded eats depth low e → g'.Guarded eats' depth' low' e :=
        fun e he low low' hlow h => ih hlow (Nat.le_of_succ_le_succ hdepth) (hP e he) h
      have heatschild : ∀ e ∈ g.children id, eats e → eats' e := fun e he => heats e (hP e he)
      have hresembles := hshape id hlt
      rw [children] at hchild heatschild
      generalize g.shape id = s at h hresembles hchild heatschild
      generalize g'.shape id = s' at hresembles ⊢
      cases hresembles with
      | ruleRef hname => exact hlow _ _ hname h
      | labeled label label' e => exact fun e' he' => hchild e' he' _ _ hlow (h e' he')
      | same hs =>
        cases s
        case sequence es => exact h.mono heatschild hchild hlow
        case range min max e delimiter =>
          refine ⟨h.1.mono heatschild hchild hlow, fun hmax => ?_⟩
          rcases h.2 hmax with heat | ⟨d, hd, heat⟩
          · exact .inl (heatschild e List.mem_cons_self heat)
          · have hmem : d ∈ (Shape.range min max e delimiter).children :=
              List.mem_cons_of_mem _ (Option.mem_toList.mpr hd)
            exact .inr ⟨d, hd, heatschild d hmem heat⟩
        case zeroOrMore e =>
          have he : e ∈ (Shape.zeroOrMore e).children := List.mem_singleton_self e
          exact ⟨heatschild e he h.1, hchild e he _ _ hlow h.2⟩
        case oneOrMore e =>
          have he : e ∈ (Shape.oneOrMore e).children := List.mem_singleton_self e
          exact ⟨heatschild e he h.1, hchild e he _ _ hlow h.2⟩
        case ruleRef name => exact absurd rfl (hs name)
        all_goals exact fun e he => hchild e he _ _ hlow (h e he)

theorem Progress.hasTrees (h : g.Progress eats rule rank) : g.HasTrees :=
  fun r hr => (h.guarded r hr).within.tree

/-- What is referred to may be changed to rules that consume as much and are of no greater rank. -/
theorem Progress.reshape (h : g.Progress eats rule rank) (hre : g.Reshapes call g')
    (hrule : ∀ name name', call name name' → rule name → rule name')
    (hrank : ∀ name name', call name name' → rank name' ≤ rank name) :
    ∃ eats', g'.Progress eats' rule rank := by
  -- A label that is put on a root consumes what the root consumes.
  let labels (id : NodeId) (r : Rule) : Prop := g.nodes.size < g'.nodes.size ∧
    id < g'.nodes.size ∧ ∃ label, g'.shape id = .labeled label r.expression
  let eats' (id : NodeId) : Prop := g'.Owned id ∧
    (eats id ∨ ∃ r ∈ g.rules, labels id r ∧ eats r.expression)
  have heats : ∀ id, g'.Owned id → eats id → eats' id := fun id howned hid => ⟨howned, .inl hid⟩
  refine ⟨eats', ⟨?_, ?_, ?_⟩⟩
  · rintro id ⟨howned, hid | ⟨r, -, ⟨-, -, label, hshape⟩, heat⟩⟩
    · obtain ⟨howned', hmarked⟩ := h.node id hid
      have hlt := (h.hasTrees.tree howned').lt_size
      have hchild : ∀ e ∈ (g.shape id).children, eats e → eats' e := fun e he =>
        heats e (howned.child (by rwa [hre.children_eq hlt]))
      exact ⟨howned, consuming_of_resembles (hre.shape id hlt) hchild hrule hmarked⟩
    · refine ⟨howned, ?_⟩
      rw [hshape]
      refine heats _ (howned.child ?_) heat
      rw [children, hshape]
      exact List.mem_singleton_self _
  · intro r' hr' hmarked
    obtain ⟨r, hr, hname, hroot⟩ := hre.rule r' hr'
    have howned : g'.Owned r'.expression := ⟨r', hr', .refl⟩
    rw [hname] at hmarked
    have hroots := h.root r hr hmarked
    rcases hroot with hroot | hlabels
    · exact ⟨howned, .inl (hroot ▸ hroots)⟩
    · exact ⟨howned, .inr ⟨r, hr, hlabels, hroots⟩⟩
  · intro r' hr'
    obtain ⟨r, hr, hname, hroot⟩ := hre.rule r' hr'
    have howned : g'.Owned r'.expression := ⟨r', hr', .refl⟩
    have hlow : ∀ name name', call name name' → rank name < rank r.name →
        rank name' < rank r'.name := by
      intro name name' hcall hlt
      rw [hname]
      exact Nat.lt_of_le_of_lt (hrank name name' hcall) hlt
    have hchildren : ∀ id < g.nodes.size, g'.Owned id → ∀ e ∈ g.children id, g'.Owned e :=
      fun id hlt howned e he => howned.child (by rwa [hre.children_eq hlt])
    have hguarded (depth : Nat) (hdepth : g.depthBound ≤ depth) (hid : g'.Owned r.expression) :
        g'.Guarded eats' depth (fun name => rank name < rank r'.name) r.expression :=
      (h.guarded r hr).reshape hre.size_le hre.shape hchildren heats hlow hdepth hid
    rcases hroot with hroot | ⟨hgrows, hlt, label, hshape⟩
    · rw [hroot] at howned ⊢
      exact hguarded _ (Nat.succ_le_succ hre.size_le) howned
    · refine ⟨hlt, ?_⟩
      have hroot : r.expression ∈ g'.children r'.expression := by
        rw [children, hshape]
        exact List.mem_singleton_self _
      rw [hshape]
      intro e he
      obtain rfl : e = r.expression := List.mem_singleton.mp he
      exact hguarded _ hgrows (howned.child hroot)

end

end Grammar

end PegMachine
