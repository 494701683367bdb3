import PegMachine.Proofs.ReadingBack

/-!
# Places of combined expressions

Putting an expression after another one, or beside it, goes on with the sequence or choice that is
there if that has no place of its own, and otherwise makes a new one of the two. What is put there
is kept as it is. What was there first is rebuilt from its form in a new sequence or choice, so it
loses its place, if it has one. Where this never happens, an expression is built just as it was
meant, and each node of the grammar that is made of it stands at the place of its part.
-/

namespace PegMachine

namespace Expr

theorem ext {e e' : Expr} (hform : e.form = e'.form) (hlocation : e.location = e'.location) :
    e = e' := by
  cases e
  cases e'
  cases hform
  cases hlocation
  rfl

theorem form_located (e : Expr) (location : Location) : (e.located location).form = e.form := by
  cases e
  rfl

/-- An expression without a place is just its form. -/
theorem of_form {e : Expr} (h : e.location = none) : of e.form = e := ext rfl h.symm

/-- The two ways to combine expressions: one after the other, or one instead of the other. -/
inductive Joint where
  | sequence
  | choice
  deriving DecidableEq, Repr

namespace Joint

/-- The form that is combined of some expressions. -/
def form : Joint → List Expr → Form
  | sequence => .sequence
  | choice => .choice

/-- What an expression is combined of, if it goes on when something is added. -/
def parts? : Joint → Expr → Option (List Expr)
  | sequence, .mk (.sequence es) none => some es
  | choice, .mk (.choice es) none => some es
  | _, _ => none

/-- Combine two expressions. -/
def combine : Joint → Expr → Expr → Expr
  | sequence => followedBy
  | choice => orElse

/-- Combine two expressions in such a way that what is combined is kept as it is. -/
def join (j : Joint) (e other : Expr) : Expr := of (j.form ((j.parts? e).getD [e] ++ [other]))

variable {j : Joint} {e other : Expr}

/-- An expression that does not go on is put into a new one without its place. -/
theorem combine_eq (j : Joint) (e other : Expr) :
    j.combine e other = of (j.form ((j.parts? e).getD [of e.form] ++ [other])) := by
  cases e with
  | mk form location => cases j <;> cases form <;> cases location <;> rfl

theorem form_injective (j : Joint) : Function.Injective j.form := by
  intro es es' h
  cases j <;> exact (by injection h)

/-- An expression that goes on has no place. -/
theorem eq_of_parts? {es : List Expr} (h : j.parts? e = some es) : e = of (j.form es) := by
  unfold parts? at h
  split at h
  · cases h
    rfl
  · cases h
    rfl
  · cases h

/-- What is combined is kept as it is if what was there first has no place. -/
theorem combine_eq_join (h : e.location = none) : j.combine e other = j.join e other := by
  rw [combine_eq, of_form h]
  rfl

/-- What was there first loses its place, and only that. -/
theorem combine_of_placed (h : e.location ≠ none) :
    j.combine e other = of (j.form [of e.form, other]) := by
  have hparts : j.parts? e = none := by
    rw [Option.eq_none_iff_forall_ne_some]
    intro es hes
    exact h (congrArg location (eq_of_parts? hes))
  rw [combine_eq, hparts]
  rfl

end Joint

/-! ## Plans -/

/-- How an expression is built. -/
inductive Plan where
  /-- It is there. -/
  | given (e : Expr)
  /-- It is of a shape, a label or an action among others, whose numbers stand for its parts. -/
  | made (shape : Shape) (part : NodeId → Plan)
  /-- Something is put after something else, or beside it. -/
  | combined (j : Joint) (p other : Plan)
  /-- Something is put at a place. -/
  | located (p : Plan) (location : Location)

namespace Plan

/-- The expression that is built. -/
def built : Plan → Expr
  | given e => e
  | made shape part => of (shape.toForm fun id => (part id).built)
  | combined j p other => j.combine p.built other.built
  | located p location => p.built.located location

/-- The expression that is meant: all that is combined is kept as it is. -/
def meant : Plan → Expr
  | given e => e
  | made shape part => of (shape.toForm fun id => (part id).meant)
  | combined j p other => j.join p.meant other.meant
  | located p location => p.meant.located location

/-- The place of what is built. -/
def place? : Plan → Option Location
  | given e => e.location
  | made .. => none
  | combined .. => none
  | located _ location => some location

/-- Nothing is put after or beside something that has a place. -/
def Unplaced : Plan → Prop
  | given _ => True
  | made shape part => ∀ id ∈ shape.children, (part id).Unplaced
  | combined _ p other => p.place? = none ∧ p.Unplaced ∧ other.Unplaced
  | located p _ => p.Unplaced

theorem location_built (p : Plan) : p.built.location = p.place? := by
  cases p with
  | given e => rfl
  | made shape part => rfl
  | combined j p other =>
    rw [built, Joint.combine_eq]
    rfl
  | located p location =>
    rw [built]
    cases p.built
    rfl

theorem location_meant (p : Plan) : p.meant.location = p.place? := by
  cases p with
  | located p location =>
    rw [meant]
    cases p.meant
    rfl
  | _ => rfl

/-- What is built goes on where what is meant does. -/
theorem isSome_parts? (p : Plan) (j : Joint) :
    (j.parts? p.built).isSome = (j.parts? p.meant).isSome := by
  cases p with
  | given e => rfl
  | made shape part => cases j <;> cases shape <;> rfl
  | combined k p other =>
    rw [built, meant, Joint.combine_eq, Joint.join]
    cases j <;> cases k <;> rfl
  | located p location =>
    have hnone (e : Expr) : j.parts? (e.located location) = none := by
      cases e with
      | mk form _ => cases j <;> cases form <;> rfl
    rw [built, meant, hnone, hnone]

/-- Two expressions without a place that are combined of the same are the same. -/
theorem eq_of_parts {p : Plan} {j : Joint} (h : (j.parts? p.built).getD [of p.built.form] =
    (j.parts? p.meant).getD [p.meant]) : p.place? = none ∧ p.built = p.meant := by
  have hsame := p.isSome_parts? j
  cases hbuilt : j.parts? p.built with
  | some es =>
    rw [hbuilt] at hsame h
    obtain ⟨es', hmeant⟩ := Option.isSome_iff_exists.mp hsame.symm
    rw [hmeant] at h
    obtain rfl : es = es' := h
    have heq := Joint.eq_of_parts? hbuilt
    exact ⟨p.location_built.symm.trans (congrArg location heq),
      heq.trans (Joint.eq_of_parts? hmeant).symm⟩
  | none =>
    have hmeant : j.parts? p.meant = none := by
      refine Option.not_isSome_iff_eq_none.mp ?_
      rw [← hsame, hbuilt]
      exact Bool.false_ne_true
    rw [hbuilt, hmeant] at h
    have hself : of p.built.form = p.meant := List.singleton_inj.mp h
    have hplace : p.place? = none := p.location_meant.symm.trans (congrArg location hself.symm)
    exact ⟨hplace, (of_form (p.location_built.trans hplace)).symm.trans hself⟩

/-- An expression is built as it is meant just if nothing is put after or beside something that has
a place. -/
theorem built_eq_meant_iff (p : Plan) : p.built = p.meant ↔ p.Unplaced := by
  induction p with
  | given e => exact ⟨fun _ => trivial, fun _ => rfl⟩
  | made shape part ih =>
    constructor
    · intro h id hid
      have hform := congrArg (fun e => e.form.operands) h
      simp only [built, meant, of, form, Shape.operands_toForm] at hform
      exact (ih id).mp (List.map_inj_left.mp hform id hid)
    · intro h
      rw [built, meant, Shape.toForm_congr fun id hid => (ih id).mpr (h id hid)]
  | combined j p other ihp ihother =>
    constructor
    · -- What was added last is compared with what was added last, the rest with the rest.
      intro h
      rw [built, meant, Joint.combine_eq, Joint.join] at h
      obtain ⟨hparts, hother⟩ := List.append_inj' (j.form_injective (congrArg form h)) rfl
      obtain ⟨hplace, hp⟩ := eq_of_parts hparts
      exact ⟨hplace, ihp.mp hp, ihother.mp (List.singleton_inj.mp hother)⟩
    · rintro ⟨hplace, hp, hother⟩
      rw [built, meant, Joint.combine_eq_join (p.location_built.trans hplace), ihp.mpr hp,
        ihother.mpr hother]
  | located p location ih =>
    constructor
    · intro h
      have hform := congrArg form h
      rw [built, meant, form_located, form_located] at hform
      exact ih.mp (ext hform (p.location_built.trans p.location_meant.symm))
    · intro h
      rw [built, meant, ih.mpr h]

/-- An expression to which another one is added is kept as it is if it has no place, and loses its
place otherwise. So an expression is built as it is meant just if nothing is added to what has a
place; then all parts of what is meant are in the grammar, each at its place. -/
theorem built_places (p : Plan) :
    (∀ (j : Joint) (e other : Expr),
      (e.location = none → j.combine e other = j.join e other) ∧
      (e.location ≠ none → j.combine e other = of (j.form [of e.form, other]))) ∧
    (p.built = p.meant ↔ p.Unplaced) ∧
    (p.Unplaced → ∀ (source : GrammarSource), ∀ rs ∈ source.rules, rs.expression = p.built →
      ∃ r ∈ (Grammar.ofSource source).rules, r.name = rs.name ∧
        (Grammar.ofSource source).Located r.expression p.meant) := by
  refine ⟨fun j e other => ⟨Joint.combine_eq_join, Joint.combine_of_placed⟩, p.built_eq_meant_iff,
    fun hunplaced source rs hrs hbuilt => ?_⟩
  obtain ⟨r, hr, hname, hstands⟩ := Grammar.standsFor_ofSource hrs
  rw [hbuilt, p.built_eq_meant_iff.mpr hunplaced] at hstands
  exact ⟨r, hr, hname, hstands.located⟩

/-- A place in the first line. -/
def inFirstLine : Location := ⟨⟨1, 1, 2⟩, ⟨2, 1, 3⟩⟩

/-- A letter under a label, and after it one that has a place. -/
def placedSecond : Plan :=
  .combined .sequence (.made (.labeled (some "x") 0) fun _ => .given (literal "a" false))
    (.located (.given (literal "b" false)) inFirstLine)

theorem built_places_placedSecond :
    let first := (literal "a" false).label "x"
    let second := (literal "b" false).located inFirstLine
    let source : GrammarSource :=
      { rules := [{ name := "start", expression := first.followedBy second }] }
    placedSecond.Unplaced ∧ ∃ r ∈ (Grammar.ofSource source).rules, r.name = "start" ∧
      (Grammar.ofSource source).Located r.expression (of (.sequence [first, second])) := by
  intro first second source
  have hunplaced : placedSecond.Unplaced := ⟨rfl, fun _ _ => trivial, trivial⟩
  exact ⟨hunplaced, (built_places placedSecond).2.2 hunplaced source ⟨"start", _, [], none⟩
    (List.mem_singleton_self _) rfl⟩

example : ((literal "a" false).located inFirstLine).followedBy (literal "b" false) =
    of (.sequence [literal "a" false, literal "b" false]) := rfl

end Plan

end Expr

end PegMachine
