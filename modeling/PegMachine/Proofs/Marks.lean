import PegMachine.Analysis.Consumption
import PegMachine.Proofs.Terminals

/-!
# Expressions that consume something

Some expressions have to consume something whenever they match. Which ones is said by marks on nodes
and on names of rules: a mark on a node is borne out by the marks on its children, or by what kind
of a terminal it is, and a mark on a rule by that on the root of its expression.
-/

namespace PegMachine

namespace Peg

open Peg.Language

variable (node : NodeId → Prop) (rule : String → Prop)

/-- What an expression needs to have below it in order to consume something. -/
def Consuming : Shape → Prop
  | .named _ e | .action e _ | .labeled _ e | .text e | .oneOrMore e => node e
  | .choice es => ∀ e ∈ es, node e
  | .sequence es => ∃ e ∈ es, node e
  | .range min _ e delimiter => (0 < min ∧ node e) ∨ (2 ≤ min ∧ ∃ d ∈ delimiter, node d)
  | .ruleRef name => rule name
  | .literal value _ => 0 < (UInt32.ofNat value.length).toNat
  | .regex value ignoreCase multiLine raw =>
    Consumption.regexMatchesEmpty (.regex value ignoreCase multiLine raw) = false
  | .charClass .. | .any => True
  | .simpleAnd _ | .simpleNot _ | .optional _ | .zeroOrMore _ | .semanticAnd _ | .semanticNot _
  | .code _ | .epsilon => False

/-- A number of characters is enough for what has to consume something. -/
def Enough (marked : Prop) (k : Nat) : Prop := marked → 0 < k

variable {node rule} {input : Input} {g : Grammar}

theorem Enough.of_not {marked : Prop} (h : ¬marked) (k : Nat) : Enough marked k :=
  fun hmarked => absurd hmarked h

theorem Language.Takes.mark {L : Language} {marked marked' : Prop}
    (h : L.Takes input (Enough marked)) (himp : marked' → marked) :
    L.Takes input (Enough marked') := h.weaken fun _ hk hmarked => hk (himp hmarked)

theorem Language.Takes.many {L : Language} {marked : Prop} (h : L.Takes input (Enough marked))
    (n : Nat) : (L.power n).Takes input (Enough (0 < n ∧ marked)) := by
  refine h.power (J := fun n k => Enough (0 < n ∧ marked) k) (fun h => absurd h.1 (by decide)) ?_ n
  intro n k k' _ hk' hmarked
  have := hk' hmarked.2
  omega

theorem Language.Takes.both {L M : Language} {marked marked' : Prop}
    (hL : L.Takes input (Enough marked)) (hM : M.Takes input (Enough marked')) :
    (L.andThen M).Takes input (Enough (marked ∨ marked')) := by
  refine (hL.andThen hM).weaken ?_
  rintro _ ⟨k, k', hk, hk', rfl⟩ (h | h)
  · have := hk h
    omega
  · have := hk' h
    omega

theorem takes_ofRange {item further : Language} {marked marked' : Prop} {min : UInt32}
    (max : Option UInt32) (hitem : item.Takes input (Enough marked))
    (hfurther : further.Takes input (Enough marked')) :
    (ofRange min max item further).Takes input
      (Enough ((0 < min ∧ marked) ∨ (2 ≤ min ∧ marked'))) := by
  rintro a b ha (⟨rfl, rfl⟩ | ⟨n, hitems, hmin, -⟩)
  · obtain ⟨text, hspans, hk⟩ := takes_eq a a ha rfl
    refine ⟨text, hspans, Enough.of_not ?_ _⟩
    rintro (⟨h, -⟩ | ⟨h, -⟩)
    · exact absurd h (by decide)
    · exact absurd h (by decide)
  · obtain ⟨text, hspans, hk⟩ := (hitem.both (hfurther.many n)) a b ha hitems
    refine ⟨text, hspans, fun h => hk ?_⟩
    rcases h with ⟨-, h⟩ | ⟨h, hmarked⟩
    · exact .inl h
    · have : 2 ≤ min.toNat := h
      exact .inr ⟨by omega, hmarked⟩

/-- A node that is marked consumes something whenever it matches, if rules that are marked do and
regular expressions that are marked are never empty. -/
theorem takes_ofNode (hnode : ∀ id, node id → Consuming node rule (g.shape id))
    (hregex : ∀ id value ignoreCase multiLine raw, node id →
      g.shape id = .regex value ignoreCase multiLine raw → NeverEmpty input (g.shape id))
    {L : Nat → Language} (hrule : ∀ name index, g.ruleIndex? name = some index →
      (L index).Takes input (Enough (rule name)))
    (depth : Nat) (id : NodeId) :
    (ofNode input g L depth id).Takes input (Enough (node id)) := by
  have hnothing {p : Prop} (hp : p → False) : Takes input Eq (Enough p) :=
    takes_eq.weaken fun k _ => .of_not hp k
  have hterminal {shape : Shape} {p : Prop} (hp : p → NeverEmpty input shape) :
      (ofTerminal input shape).Takes input (Enough p) :=
    takes_terminal fun a cs text ha htaken h => List.length_pos_iff.mpr (hp h a cs text ha htaken)
  induction depth generalizing id with
  | zero => rintro a b - ⟨⟩
  | succ depth ih =>
    have hmark := hnode id
    simp only [ofNode]
    cases hshape : g.shape id <;> rw [hshape] at hmark
    case named name e => exact (ih e).mark hmark
    case action e source => exact (ih e).mark hmark
    case labeled label e => exact (ih e).mark hmark
    case text e => exact (ih e).mark hmark
    case choice es =>
      rintro a b ha ⟨e, he, hab⟩
      exact (ih e).mark (fun hid => hmark hid e he) a b ha hab
    case sequence es =>
      refine (takes_ofSequence ih (J := fun es k => Enough (∃ e ∈ es, node e) k) ?_ ?_ es).mark
        hmark
      · exact .of_not (by simp) 0
      · rintro e es k k' hk hk' ⟨e', he', hmarked⟩
        rcases List.mem_cons.mp he' with rfl | he'
        · have := hk hmarked
          omega
        · have := hk' ⟨e', he', hmarked⟩
          omega
    case optional e =>
      rintro a b ha (rfl | hab)
      · exact hnothing hmark a a ha rfl
      · exact (ih e).mark (fun hid => (hmark hid).elim) a b ha hab
    case zeroOrMore e =>
      rintro a b ha ⟨n, hab⟩
      exact ((ih e).many n).mark (fun hid => (hmark hid).elim) a b ha hab
    case oneOrMore e =>
      rintro a b ha ⟨n, hab⟩
      exact ((ih e).both ((ih e).many n)).mark (fun hid => .inl (hmark hid)) a b ha hab
    case range min max e delimiter =>
      dsimp only
      split
      · next hnone =>
        refine hnothing fun hid => ?_
        rcases hmark hid with ⟨h, -⟩ | ⟨h, -⟩ <;> rw [hnone.2] at h <;> exact absurd h (by decide)
      · cases delimiter with
        | none =>
          refine (takes_ofRange max (ih e) (ih e)).mark fun hid => ?_
          rcases hmark hid with h | ⟨-, d, hd, -⟩
          · exact .inl h
          · cases hd
        | some d =>
          refine (takes_ofRange max (ih e) ((ih d).both (ih e))).mark fun hid => ?_
          rcases hmark hid with h | ⟨h, d, hd, hmarked⟩
          · exact .inl h
          · cases hd
            exact .inr ⟨h, .inl hmarked⟩
    case ruleRef name =>
      rintro a b ha ⟨index, hindex, hab⟩
      exact (hrule name index hindex).mark hmark a b ha hab
    case literal value ignoreCase =>
      exact hterminal fun hid => neverEmpty_literal ignoreCase (hmark hid)
    case charClass parts inverted ignoreCase raw =>
      exact hterminal fun _ => neverEmpty_of_length_eq fun _ _ _ ha h =>
        length_taken?_charClass ha h
    case any => exact hterminal fun _ => neverEmpty_of_length_eq fun _ _ _ => length_taken?_any
    case regex value ignoreCase multiLine raw =>
      exact hterminal fun hid => hshape ▸ hregex id value ignoreCase multiLine raw hid hshape
    case epsilon => exact hterminal fun hid => (hmark hid).elim
    case simpleAnd e => exact hnothing hmark
    case simpleNot e => exact hnothing hmark
    case semanticAnd source => exact hnothing hmark
    case semanticNot source => exact hnothing hmark
    case code source => exact hnothing hmark

end Peg

end PegMachine
