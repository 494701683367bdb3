import PegMachine.Proofs.Boundaries
import PegMachine.Proofs.Language

/-!
# How far evaluation goes

A match takes the text between two boundaries, and how many characters that text has follows from
what the parts of the expression take.
-/

namespace PegMachine

namespace Peg

open Peg.Language

/-! ## Numbers of characters -/

namespace Language

variable {input : Input} {L M : Language} {K K' : Nat → Prop}

/-- A match that begins at a boundary takes a text, of some of the numbers of characters. -/
def Takes (input : Input) (L : Language) (K : Nat → Prop) : Prop :=
  ∀ a b, (∃ cs, input.rest? a = some cs) → L a b → ∃ text, input.Spans a text b ∧ K text.length

/-- All matches that take some of the numbers of characters. -/
def taking (input : Input) (K : Nat → Prop) : Language := fun a b =>
  (∃ cs, input.rest? a = some cs) → ∃ text, input.Spans a text b ∧ K text.length

theorem takes_taking : (taking input K).Takes input K := fun _ _ ha h => h ha

theorem Takes.weaken (h : L.Takes input K) (himp : ∀ k, K k → K' k) : L.Takes input K' := by
  intro a b ha hab
  obtain ⟨text, hspans, hk⟩ := h a b ha hab
  exact ⟨text, hspans, himp _ hk⟩

theorem takes_eq : Takes input Eq (· = 0) := by
  rintro a b ⟨cs, ha⟩ rfl
  exact ⟨[], Input.spans_nil ha, rfl⟩

theorem Takes.andThen (hL : L.Takes input K) (hM : M.Takes input K') :
    (L.andThen M).Takes input fun n => ∃ k k', K k ∧ K' k' ∧ n = k + k' := by
  rintro a c ha ⟨b, hab, hbc⟩
  obtain ⟨text, hspans, hk⟩ := hL a b ha hab
  obtain ⟨text', hspans', hk'⟩ := hM b c hspans.rest?_stop hbc
  exact ⟨text ++ text', hspans.append hspans', _, _, hk, hk', List.length_append⟩

/-- What holds of no characters and is kept by each match holds of a number of matches. -/
theorem Takes.power (hL : L.Takes input K) {J : Nat → Nat → Prop} (hzero : J 0 0)
    (hsucc : ∀ n k k', J n k → K k' → J (n + 1) (k + k')) (n : Nat) :
    (L.power n).Takes input (J n) := by
  induction n with
  | zero =>
    refine takes_eq.weaken ?_
    rintro k rfl
    exact hzero
  | succ n ih =>
    refine (ih.andThen hL).weaken ?_
    rintro _ ⟨k, k', hk, hk', rfl⟩
    exact hsucc n k k' hk hk'

theorem takes_ofSequence {node : NodeId → Language} {K : NodeId → Nat → Prop}
    (hnode : ∀ e, (node e).Takes input (K e)) {J : List NodeId → Nat → Prop} (hnil : J [] 0)
    (hcons : ∀ e es k k', K e k → J es k' → J (e :: es) (k + k')) (es : List NodeId) :
    (ofSequence (es.map node)).Takes input (J es) := by
  induction es with
  | nil =>
    refine takes_eq.weaken ?_
    rintro k rfl
    exact hnil
  | cons e es ih =>
    refine ((hnode e).andThen ih).weaken ?_
    rintro _ ⟨k, k', hk, hk', rfl⟩
    exact hcons e es k k' hk hk'

end Language

/-! ## Terminals -/

/-- A terminal takes what follows. -/
theorem taken?_prefix {input : Input} {shape : Shape} {a : Nat} {cs text : List Char}
    (ha : input.rest? a = some cs) (h : taken? input a shape = some text) : text <+: cs := by
  unfold taken? at h
  rw [Input.rest_eq ha] at h
  split at h
  · split at h
    · cases h
      exact List.nil_prefix
    · split at h
      · split at h
        · cases h
          exact List.take_prefix _ _
        · cases h
      · split at h
        · next hprefix =>
          cases h
          exact List.isPrefixOf_iff_prefix.mp hprefix
        · cases h
  · split at h
    · split at h
      · cases h
        exact List.take_prefix _ _
      · cases h
    · dsimp only at h
      split at h
      · cases h
        exact List.take_prefix _ _
      · cases h
  · dsimp only at h
    split at h
    · cases h
      exact Text.takeBytes_prefix _ _
    · cases h
  · split at h
    · cases h
      exact List.take_prefix _ _
    · cases h
  · cases h
    exact List.nil_prefix
  · cases h

theorem takes_terminal {input : Input} {shape : Shape} {K : Nat → Prop}
    (hK : ∀ a cs text, input.rest? a = some cs → taken? input a shape = some text →
      K text.length) : (ofTerminal input shape).Takes input K := by
  rintro a b ⟨cs, ha⟩ ⟨text, htaken, rfl⟩
  obtain ⟨rest, rfl⟩ := taken?_prefix ha htaken
  exact ⟨text, ⟨rest, ha, rfl⟩, hK a _ text ha htaken⟩

/-- A terminal consumes something wherever it matches. -/
def NeverEmpty (input : Input) (shape : Shape) : Prop :=
  ∀ a cs text, input.rest? a = some cs → taken? input a shape = some text → text ≠ []

/-- Regular expressions that are marked never match the empty text in an input. -/
def RegexesEat (input : Input) (g : Grammar) (eats : NodeId → Prop) : Prop :=
  ∀ id value ignoreCase multiLine raw, eats id →
    g.shape id = .regex value ignoreCase multiLine raw → NeverEmpty input (g.shape id)

end Peg

end PegMachine
