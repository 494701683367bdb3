import PegMachine.Proofs.Consumed
import PegMachine.Proofs.MustConsume
import PegMachine.Proofs.Takers

/-!
# First characters are taken by terminals that are listed

The record of a node lists the terminals that may take the first character of what the node matches.
An element of a sequence is listed as long as nothing before it has to consume anything, and what
has to, does; so whoever takes a first character is listed. Of a range only the element is listed:
its delimiter is forgotten, which does no harm if the element has to consume something.
-/

namespace PegMachine

theorem FirstSet.mem_nodes_union {a b : FirstSet} {id : NodeId} :
    id ∈ (a.union b).nodes ↔ id ∈ a.nodes ∨ id ∈ b.nodes := by
  simp only [nodes, union, List.mem_append, mem_merge]
  tauto

theorem clampCount_eq_zero {n : Nat} (h : clampCount n = 0) : n = 0 := by
  by_contra hne
  exact absurd h (Consumption.clampCount_pos_iff.mpr (Nat.pos_of_ne_zero hne)).ne'

namespace MaxCount

variable {a b : MaxCount} {n : Nat}

theorem eq_zero_of_add (h : a.add b = .finite 0) : a = .finite 0 ∧ b = .finite 0 := by
  cases a with
  | infinite => cases h
  | finite m =>
    cases b with
    | infinite => cases h
    | finite n =>
      have hsum := clampCount_eq_zero (MaxCount.finite.inj h)
      exact ⟨congrArg _ (Nat.add_eq_zero_iff.mp hsum).1, congrArg _ (Nat.add_eq_zero_iff.mp hsum).2⟩

theorem eq_zero_of_max (h : a.max b = .finite 0) : a = .finite 0 ∧ b = .finite 0 := by
  rw [MaxCount.max] at h
  split at h
  · next hle =>
    rw [h] at hle
    cases a with
    | infinite => cases hle
    | finite m => exact ⟨congrArg _ (Nat.le_zero.mp (of_decide_eq_true hle)), h⟩
  · next hle =>
    rw [h] at hle
    cases b with
    | infinite => exact absurd rfl hle
    | finite m => exact absurd (decide_eq_true (Nat.zero_le m)) hle

theorem eq_zero_of_times (h : a.times n = .finite 0) : n = 0 ∨ a = .finite 0 := by
  unfold times at h
  split at h
  · next hn => exact .inl hn
  · cases a with
    | infinite => cases h
    | finite m =>
      have hproduct := clampCount_eq_zero (MaxCount.finite.inj h)
      exact (Nat.mul_eq_zero.mp hproduct).symm.imp_right (congrArg _)

end MaxCount

namespace Consumption

/-! ## Terminals on offer -/

/-- A record allows a terminal to take the first character. -/
structure Offers (c : Consumption) (id : NodeId) : Prop where
  max : c.max ≠ .finite 0
  first : id ∈ c.first.nodes

variable {c e d : Consumption} {id : NodeId}

theorem Offers.repeated (h : c.Offers id) : c.repeated.Offers id := by
  have hmax : c.repeated.max = .infinite := by
    simp [Consumption.repeated, MaxCount.isPositive, h.max]
  exact ⟨by rw [hmax]; rintro ⟨⟩, h.first⟩

theorem Offers.andThen_left (h : c.Offers id) (e : Consumption) : (c.andThen e).Offers id := by
  refine ⟨fun hzero => h.max (MaxCount.eq_zero_of_add hzero).1, ?_⟩
  unfold andThen
  dsimp only
  split
  · exact FirstSet.mem_nodes_union.mpr (.inl h.first)
  · exact h.first

theorem Offers.andThen_right (h : e.Offers id) (hmin : c.min = 0) : (c.andThen e).Offers id := by
  refine ⟨fun hzero => h.max (MaxCount.eq_zero_of_add hzero).2, ?_⟩
  unfold andThen
  rw [if_pos hmin]
  exact FirstSet.mem_nodes_union.mpr (.inr h.first)

theorem Offers.orElse_left (h : c.Offers id) (e : Consumption) : (c.orElse e).Offers id :=
  ⟨fun hzero => h.max (MaxCount.eq_zero_of_max hzero).1,
    FirstSet.mem_nodes_union.mpr (.inl h.first)⟩

theorem Offers.orElse_right (h : e.Offers id) (c : Consumption) : (c.orElse e).Offers id :=
  ⟨fun hzero => h.max (MaxCount.eq_zero_of_max hzero).2,
    FirstSet.mem_nodes_union.mpr (.inr h.first)⟩

theorem Offers.foldl_orElse (es : List Consumption) (h : c.Offers id ∨ ∃ e ∈ es, e.Offers id) :
    (es.foldl orElse c).Offers id := by
  induction es generalizing c with
  | nil => exact h.resolve_right (by simp)
  | cons first rest ih =>
    refine ih ?_
    rcases h with h | ⟨e, he, h⟩
    · exact .inl (h.orElse_left first)
    · rcases List.mem_cons.mp he with rfl | he
      · exact .inl (h.orElse_right c)
      · exact .inr ⟨e, he, h⟩

theorem offers_ofChoice {es : List Consumption} (he : e ∈ es) (h : e.Offers id) :
    (ofChoice es).Offers id := by
  cases es with
  | nil => cases he
  | cons first rest =>
    rcases List.mem_cons.mp he with rfl | he
    · exact .foldl_orElse rest (.inl h)
    · exact .foldl_orElse rest (.inr ⟨e, he, h⟩)

/-- A range offers what its element offers, if it allows an item. -/
theorem Offers.range (h : e.Offers id) {max : Option Nat} (hmax : max ≠ some 0) (min : Nat)
    (d : Consumption) : (range min max e d).Offers id := by
  have hmost : (Consumption.range min max e d).max ≠ .finite 0 := by
    cases max with
    | none => simp [Consumption.range, MaxCount.isPositive, h.max]
    | some m =>
      intro hzero
      rcases MaxCount.eq_zero_of_times (MaxCount.eq_zero_of_add hzero).1 with rfl | he
      · exact hmax rfl
      · exact h.max he
  have hfirst : (Consumption.range min max e d).first = e.first := if_neg hmost
  exact ⟨hmost, hfirst ▸ h.first⟩

/-- A record that is found as it is offers what was found. -/
theorem Offers.of_settle {widen : Bool} {cur new : Consumption} (h : settle widen cur new = cur)
    (hnew : new.Offers id) : cur.Offers id := by
  have hmax : cur.max ≠ .finite 0 := by
    intro hzero
    have hle := le_of_settle h
    rw [hzero] at hle
    cases hn : new.max with
    | infinite =>
      rw [hn] at hle
      cases hle
    | finite n =>
      rw [hn] at hle
      exact hnew.max (hn.trans (congrArg _ (Nat.le_zero.mp (of_decide_eq_true hle))))
  refine ⟨hmax, ?_⟩
  -- A record that stays as it is equals what was found, or what was found went into it.
  rw [settle] at h
  split at h
  · next heq => exact heq ▸ hnew.first
  · split at h
    · rw [← congrArg Consumption.first h]
      exact FirstSet.mem_nodes_union.mpr (.inl hnew.first)
    · exact h ▸ hnew.first

/-! ## Looking deeper -/

/-- Nothing else is found by looking deeper than the nodes go. -/
theorem ofNode_eq_of_within {c : Context} {depth depth' : Nat} {id : NodeId}
    (h : c.grammar.Within depth id) (h' : c.grammar.Within depth' id) :
    ofNode c depth id = ofNode c depth' id := by
  induction depth generalizing depth' id with
  | zero => exact h.elim
  | succ depth ih =>
    obtain ⟨depth', rfl⟩ := h'.exists_succ
    have hchild (e : NodeId) (he : e ∈ c.grammar.children id) :
        ofNode c depth e = ofNode c depth' e := ih (h.2 e he) (h'.2 e he)
    rw [Grammar.children] at hchild
    cases hshape : c.grammar.shape id <;> rw [hshape] at hchild <;> simp only [ofNode, hshape]
    case named name e => exact hchild e (List.mem_singleton_self e)
    case action e source => exact hchild e (List.mem_singleton_self e)
    case labeled label e => exact hchild e (List.mem_singleton_self e)
    case text e => exact hchild e (List.mem_singleton_self e)
    case optional e => rw [hchild e (List.mem_singleton_self e)]
    case zeroOrMore e => rw [hchild e (List.mem_singleton_self e)]
    case oneOrMore e => rw [hchild e (List.mem_singleton_self e)]
    case choice es => exact congrArg ofChoice (List.map_congr_left hchild)
    case sequence es => exact congrArg ofSequence (List.map_congr_left hchild)
    case range min max e delimiter =>
      rw [hchild e List.mem_cons_self]
      cases delimiter with
      | none => rfl
      | some d =>
        have hd := hchild d (List.mem_cons_of_mem _ (List.mem_singleton_self d))
        simp only [Option.elim_some, hd]

end Consumption

namespace Peg

open Peg.Language Consumption

/-! ## Expressions -/

section

variable {S : Type} {O : Ops S} {I : Invariant (S × List Matched)} (hO : O.watched.Keeps I)

include hO

/-- On through the elements of a sequence, who takes the first character is on offer, as long as
elements that have to consume something do. -/
theorem tracks_elements {g : Grammar} {eval : NodeId → Env → Run (S × List Matched) Slot}
    {f : NodeId → Consumption} (action? : Option String) {a : Place} (ha : I.offsets a.1)
    {es : List NodeId} (heval : ∀ e ∈ es, ∀ env, Tracks O I g (eval e env) (f e).Offers)
    (hleaves : ∀ e ∈ es, ∀ env, Leaves O I (eval e env) fun p q => p = q → (f e).min = 0)
    (values : List Slot) (env : Env) {c : Consumption} {s : S × List Matched} (hs : I s)
    (h : Reached g c.Offers a (O.place s)) (hmin : a.1 = O.pos s.1 → c.min = 0) :
    Ends I.ended (elements O.watched eval g a.1 (sequenceEnd O.watched action? a.1) es values env) s
      fun _ t => I t ∧ Reached g ((es.map f).foldl Consumption.andThen c).Offers a
        (O.place t) := by
  induction es generalizing values env c s with
  | nil =>
    cases action? with
    | none => exact .pure ⟨hs, h⟩
    | some source => exact ends_act_after hO source ha env hs h
  | cons e es ih =>
    have hrest {c : Consumption} {s : S × List Matched} :=
      ih (fun e' he' => heval e' (List.mem_cons_of_mem _ he'))
        (fun e' he' => hleaves e' (List.mem_cons_of_mem _ he')) (c := c) (s := s)
    refine ((heval e List.mem_cons_self env).and_leaves (hleaves e List.mem_cons_self env) hs).bind
      fun v u ⟨hu, hnext, hleft⟩ => ?_
    have hboth : Reached g (c.andThen (f e)).Offers a (O.place u) :=
      (h.weaken fun _ hid => hid.andThen_left _).andThen hnext
        fun heq _ hid => hid.andThen_right (hmin heq)
    refine Ends.ite (fun _ => ends_retreat_back hO ha hu hboth.toOnward) fun hv => ?_
    refine hrest _ _ hu hboth fun heq => ?_
    -- Nothing was taken so far, neither by this element nor by those before.
    have hsu : O.pos s.1 ≤ O.pos u.1 := hnext.le
    have has : a.1 ≤ O.pos s.1 := h.le
    have hzero : (f e).min = 0 := hleft.of_matched hv (by omega)
    have hzero' : c.min = 0 := hmin (by omega)
    rw [Consumption.andThen, hzero, hzero']
    rfl

/-- Items of a range take first characters as its element does, if nothing else comes first where
the element may match without going anywhere. -/
theorem Tracks.range_offers {g : Grammar} {x y : Run (S × List Matched) Slot} {c : Consumption}
    {K : NodeId → Prop} {max : Option UInt32} (hmax : max.map (·.toNat) ≠ some 0)
    (hx : Tracks O I g x c.Offers) (hl : Leaves O I x fun p q => p = q → c.min = 0)
    (hy : Tracks O I g y K) (hstill : c.min = 0 → ∀ id, K id → c.Offers id) (rounds : Nat)
    (min : UInt32) (d : Consumption) :
    Tracks O I g (Peg.range O.watched rounds min max x y)
      (Consumption.range min.toNat (max.map (·.toNat)) c d).Offers := by
  have hitem (id : NodeId) (hid : c.Offers id) :
      (Consumption.range min.toNat (max.map (·.toNat)) c d).Offers id := hid.range hmax _ _
  exact (hx.weaken hitem).range hO hl hy (fun hmin id hid => hitem id (hstill hmin id hid)) rounds
    min max

/-- Whatever a node takes that is no terminal, who takes the first character is on offer, if that is
so for the nodes below it and no delimiter comes first that its range does not offer. -/
theorem tracks_level {c : Context} {input : Input} {invoke : Nat → Run (S × List Matched) Slot}
    {ev : NodeId → Env → Option String → Run (S × List Matched) Slot} {depth : Nat} {id : NodeId}
    (hev : ∀ e ∈ c.grammar.children id, ∀ env action?,
      Tracks O I c.grammar (ev e env action?) (Consumption.ofNode c depth e).Offers)
    (hleaves : ∀ e ∈ c.grammar.children id, ∀ env action?, Leaves O I (ev e env action?)
      fun p q => p = q → (Consumption.ofNode c depth e).min = 0)
    (hinvoke : ∀ name index, c.grammar.shape id = .ruleRef name →
      c.grammar.ruleIndex? name = some index →
        Tracks O I c.grammar (invoke index) (Consumption.ofNode c (depth + 1) id).Offers)
    (hrange : ∀ min e delimiter, c.grammar.shape id = .range min (some 0) e delimiter → min = 0)
    (hdelimiter : ∀ min max e d, c.grammar.shape id = .range min max e (some d) →
      (Consumption.ofNode c depth e).min = 0 → (Consumption.ofNode c depth d).max = .finite 0)
    (hterminal : (c.grammar.shape id).isTerminal = false) (rounds : Nat) (env : Env)
    (action? : Option String) :
    Tracks O I c.grammar (level O.watched input c.grammar invoke rounds ev id env action?)
      (Consumption.ofNode c (depth + 1) id).Offers := by
  rw [Grammar.children] at hev hleaves
  cases hshape : c.grammar.shape id <;> rw [hshape] at hev hleaves hterminal
  case ruleRef name =>
    simp only [level, hshape]
    cases hindex : c.grammar.ruleIndex? name with
    | none => exact tracks_pure _
    | some index => exact hinvoke name index hshape hindex
  all_goals simp only [level, Consumption.ofNode, hshape]
  case named name e => exact (hev e (List.mem_singleton_self e) env none).named hO name
  case choice es =>
    exact tracks_choice fun e he => (hev e he env none).weaken fun _ hid =>
      offers_ofChoice (List.mem_map_of_mem he) hid
  case action e source =>
    have he := hev e (List.mem_singleton_self e) env (some source)
    split
    · exact he
    · exact he.actionAround hO e source env
  case sequence es =>
    refine fun s hs => ends_here_bind (tracks_elements (a := O.place s) hO action? (hO.pos s hs)
      (fun e he env => hev e he env none) (fun e he env => hleaves e he env none) [] env hs
      (.refl _) fun _ => rfl)
  case labeled label e => exact hev e (List.mem_singleton_self e) env none
  case text e => exact (hev e (List.mem_singleton_self e) env none).text input
  case simpleAnd e =>
    have he := List.mem_singleton_self e
    exact (hev e he env none).predicate hO (hleaves e he env none) false
  case simpleNot e =>
    have he := List.mem_singleton_self e
    exact (hev e he env none).predicate hO (hleaves e he env none) true
  case optional e =>
    exact (hev e (List.mem_singleton_self e) env none).optional.weaken fun _ hid =>
      ⟨hid.max, hid.first⟩
  case zeroOrMore e =>
    exact ((hev e (List.mem_singleton_self e) env none).zeroOrMore rounds).weaken fun _ hid =>
      ⟨hid.repeated.max, hid.repeated.first⟩
  case oneOrMore e =>
    exact ((hev e (List.mem_singleton_self e) env none).oneOrMore hO rounds).weaken fun _ hid =>
      hid.repeated
  case range min max e delimiter =>
    split
    · exact tracks_pure _
    · next hempty =>
      have hmax : max.map (·.toNat) ≠ some 0 := by
        intro hzero
        obtain ⟨m, rfl, hm⟩ := Option.map_eq_some_iff.mp hzero
        obtain rfl : m = 0 := UInt32.toNat_inj.mp hm
        exact hempty ⟨rfl, hrange min e delimiter hshape⟩
      have hx := hev e List.mem_cons_self [] none
      have hl := hleaves e List.mem_cons_self [] none
      cases delimiter with
      | none => exact hx.range_offers hO hmax hl hx (fun _ _ hid => hid) rounds min _
      | some d =>
        have hd := hev d (List.mem_cons_of_mem _ (List.mem_singleton_self d)) [] none
        have hfurther := (hd.weaken fun _ => Or.inl).delimited hO (hx.weaken fun _ => Or.inr)
        refine hx.range_offers hO hmax hl hfurther (fun hmin id hid => ?_) rounds min _
        exact hid.resolve_left fun hid => hid.max (hdelimiter min max e d hshape hmin)
  case semanticAnd source => exact tracks_semantic hO source false env
  case semanticNot source => exact tracks_semantic hO source true env
  case code source => exact tracks_code hO source env
  case epsilon => exact tracks_epsilon hO input
  all_goals cases hterminal

end

/-! ## Nodes -/

theorem level_of_terminal {S : Type} {O : Ops S} {input : Input} {g : Grammar}
    {invoke : Nat → Run S Slot} {rounds : Nat} {ev : NodeId → Env → Option String → Run S Slot}
    {id : NodeId} (h : (g.shape id).isTerminal = true) (env : Env) (action? : Option String) :
    level O input g invoke rounds ev id env action? = terminal O input (g.shape id) := by
  simp only [level]
  cases hshape : g.shape id <;> rw [hshape] at h <;> first | rfl | cases h

end Peg

/-- What is asked of a shape: the characters of a literal can be counted in 32 bits, and a range
that asks for items allows some. -/
def Shape.Sensible : Shape → Prop
  | .literal value _ => value.length < 2 ^ 32
  | .range min max _ _ => max = some 0 → min = 0
  | _ => True

instance : DecidablePred Shape.Sensible
  | .literal value _ => inferInstanceAs (Decidable (value.length < 2 ^ 32))
  | .range min max _ _ => inferInstanceAs (Decidable (max = some 0 → min = 0))
  | .named .. | .choice .. | .action .. | .sequence .. | .labeled .. | .text .. | .simpleAnd ..
  | .simpleNot .. | .optional .. | .zeroOrMore .. | .oneOrMore .. | .semanticAnd ..
  | .semanticNot .. | .ruleRef .. | .charClass .. | .regex .. | .any | .epsilon | .code .. =>
    .isTrue trivial

namespace Consumption

/-- A delimiter of a range consumes nothing if the element of the range may match without consuming
anything. -/
def Context.Delimits (c : Context) : Prop :=
  ∀ id min max e d, c.grammar.Owned id → c.grammar.shape id = .range min max e (some d) →
    (ofNode c c.grammar.depthBound e).min = 0 →
      (ofNode c c.grammar.depthBound d).max = .finite 0

/-- What is matched has a record, and that allows a terminal to take the first character. -/
def Context.foretells (c : Context) : Subject → NodeId → Prop
  | .node id, taker => c.grammar.Owned id ∧ (ofNode c c.grammar.depthBound id).Offers taker
  | .rule index, taker => index < c.grammar.rules.length ∧ (c.record index).Offers taker

/-- A terminal that takes something is listed for itself. -/
theorem offers_terminal {c : Context} {depth : Nat} {id : NodeId} {input : Input} {a : Nat}
    {text : List Char} (hterminal : (c.grammar.shape id).isTerminal = true)
    (hshape : (c.grammar.shape id).Sensible)
    (htaken : Peg.taken? input a (c.grammar.shape id) = some text) (hne : text ≠ []) :
    (ofNode c (depth + 1) id).Offers id := by
  cases h : c.grammar.shape id <;> rw [h] at hterminal hshape htaken <;>
    simp only [ofNode, h]
  case literal value ignoreCase =>
    have hvalue : 0 < (UInt32.ofNat value.length).toNat := by
      rw [UInt32.toNat_ofNat_of_lt' hshape, Nat.pos_iff_ne_zero, Ne, String.length_eq_zero_iff]
      rintro rfl
      exact hne (Option.some.inj htaken).symm
    rw [if_pos hvalue]
    exact ⟨fun hzero => absurd (MaxCount.finite.inj hzero) hvalue.ne', List.mem_singleton_self id⟩
  case charClass parts inverted ignoreCase raw => exact ⟨by rintro ⟨⟩, List.mem_singleton_self id⟩
  case regex value ignoreCase multiLine raw => exact ⟨by rintro ⟨⟩, List.mem_singleton_self id⟩
  case any => exact ⟨by rintro ⟨⟩, List.mem_singleton_self id⟩
  all_goals cases hterminal

end Consumption

namespace Peg

open Peg.Language Consumption

section

variable {c : Context} (hfits : c.Fits c.grammar) (htrees : c.grammar.HasTrees)
  (hshapes : ∀ id, (c.grammar.shape id).Sensible) (hdelimits : c.Delimits)

include hfits htrees hshapes hdelimits

/-- Whatever a node of a rule takes, who takes the first character is foretold, if that is so for
rules and nodes that have to consume something do. -/
theorem tracks_evalNoting {S : Type} {O : Ops S} {I : Invariant (S × List Matched)} {input : Input}
    (hO : O.watched.Keeps I) (hI : I.Spreads input) (hgrows : Grows I c.grammar c.foretells)
    {invoke : Nat → Run (S × List Matched) Slot}
    (hinvoke : ∀ index, Tracks O I c.grammar (invoke index) (c.foretells (.rule index)))
    {rounds : Nat} (hleaves : ∀ depth e env action?, c.grammar.Owned e →
      Leaves O I (evalNoting O input c.grammar invoke rounds depth e env action?)
        fun p q => p = q → (Consumption.ofNode c c.grammar.depthBound e).min = 0)
    (depth : Nat) {id : NodeId} (howned : c.grammar.Owned id) (env : Env)
    (action? : Option String) :
    Tracks O I c.grammar (evalNoting O input c.grammar invoke rounds depth id env action?)
      (c.foretells (.node id)) := by
  induction depth generalizing id env action? with
  | zero => exact tracks_forever
  | succ depth ih =>
    -- The record is computed as deep as the tables go, which is one level more than for a child.
    have hwithin := (htrees.tree howned).within
    obtain ⟨bound, hbound⟩ := hwithin.exists_succ
    rw [hbound] at hwithin
    have hchild (e : NodeId) (he : e ∈ c.grammar.children id) :
        Consumption.ofNode c c.grammar.depthBound e = Consumption.ofNode c bound e :=
      ofNode_eq_of_within (htrees.tree (howned.child he)).within (hwithin.2 e he)
    have hforetold (taker : NodeId) (h : (Consumption.ofNode c (bound + 1) id).Offers taker) :
        c.foretells (.node id) taker := ⟨howned, by rwa [hbound]⟩
    rw [evalNoting]
    cases hterminal : (c.grammar.shape id).isTerminal with
    | true =>
      rw [level_of_terminal hterminal]
      exact tracks_terminal hO hI hgrows hterminal fun a text _ htaken hne =>
        hforetold id (offers_terminal hterminal (hshapes id) htaken hne)
    | false =>
      refine ((tracks_level hO (fun e he env action? => ?_) (fun e he env action? => ?_)
        (fun name index hshape hindex => ?_) (fun min e delimiter hshape => ?_)
        (fun min max e d hshape hmin => ?_) hterminal rounds env action?).weaken hforetold).noting
          hgrows hterminal
      · exact hchild e he ▸ (ih (howned.child he) env action?).weaken fun _ => And.right
      · exact hchild e he ▸ hleaves depth e env action? (howned.child he)
      · rw [ofNode_ruleRef hshape, hfits.target id name howned hshape, hindex]
        exact (hinvoke index).weaken fun _ => And.right
      · have hsensible := hshapes id
        rw [hshape] at hsensible
        exact hsensible rfl
      · have he : e ∈ c.grammar.children id := by
          rw [Grammar.children, hshape]
          exact List.mem_cons_self
        have hd : d ∈ c.grammar.children id := by
          rw [Grammar.children, hshape]
          exact List.mem_cons_of_mem _ (List.mem_singleton_self d)
        rw [← hchild e he] at hmin
        rw [← hchild d hd]
        exact hdelimits id min max e d howned hshape hmin

end

/-! ## Rules -/

/-- What rules may match, if those consume something whose records say so. -/
def moving (input : Input) (c : Context) (index : Nat) : Language :=
  taking input (Enough (0 < (c.record index).min))

section

variable {c : Context} {input : Input} (hfits : c.Fits c.grammar) (htrees : c.grammar.HasTrees)
  (hregex : RegexesEat input c.grammar fun id =>
    c.grammar.Owned id ∧ regexMatchesEmpty (c.grammar.shape id) = false)

include hfits htrees hregex

/-- A node of a rule consumes something if that is found for it. -/
theorem takes_moving (depth : Nat) (id : NodeId) :
    (ofNode input c.grammar (moving input c) depth id).Takes input
      (Enough (c.grammar.Owned id ∧ 0 < (Consumption.ofNode c c.grammar.depthBound id).min)) := by
  have hconsuming (id : NodeId)
      (h : c.grammar.Owned id ∧ 0 < (Consumption.ofNode c c.grammar.depthBound id).min) :
      Consuming (fun e => c.grammar.Owned e ∧
          0 < (Consumption.ofNode c c.grammar.depthBound e).min)
        (fun name => ∃ index, c.grammar.ruleIndex? name = some index ∧ 0 < (c.record index).min)
        (c.grammar.shape id) := by
    obtain ⟨howned, hpos⟩ := h
    refine (Facts.consuming_of_ofNode (fun e he hchild => ?_)
      (fun name target hshape htarget hrule => ?_)
      (hfits.emptyRegex id (htrees.tree howned).lt_size) hpos).1
    · exact ⟨howned.child he,
        hchild.trans_le (min_ofNode_mono (.refl c) (Nat.le_succ _) e)⟩
    · exact ⟨target, (hfits.target id name howned hshape).symm.trans htarget, hrule⟩
  refine takes_ofNode hconsuming ?_ (fun name index hindex => ?_) depth id
  · intro id value ignoreCase multiLine raw h hshape
    have hmarked := hconsuming id h
    rw [hshape] at hmarked
    exact hregex id value ignoreCase multiLine raw ⟨h.1, hshape ▸ hmarked⟩ hshape
  · refine takes_taking.mark ?_
    rintro ⟨target, htarget, hpos⟩
    rw [hindex] at htarget
    cases htarget
    exact hpos

/-- A node that matches without going anywhere need not consume anything. -/
theorem min_eq_zero_of_still {depth a b : Nat} {id : NodeId} (howned : c.grammar.Owned id)
    (ha : ∃ cs, input.rest? a = some cs)
    (h : ofNode input c.grammar (moving input c) depth id a b) (hstill : a = b) :
    (Consumption.ofNode c c.grammar.depthBound id).min = 0 := by
  obtain ⟨text, hspans, henough⟩ := takes_moving hfits htrees hregex depth id a b ha h
  by_contra hne
  exact absurd hstill (hspans.le.2 (henough ⟨howned, Nat.pos_of_ne_zero hne⟩)).ne

/-- What rules may match is closed under evaluating their expressions. -/
theorem moving_of_ofRule (hrising : Rising c) (index a b : Nat)
    (h : Language.ofRule input c.grammar (moving input c) index a b) :
    moving input c index a b := by
  obtain ⟨r, hr, hab⟩ := h
  intro ha
  obtain ⟨text, hspans, henough⟩ := takes_moving hfits htrees hregex _ _ a b ha hab
  have howned : c.grammar.Owned r.expression := ⟨r, List.mem_of_getElem? hr, .refl⟩
  exact ⟨text, hspans, fun hpos => henough ⟨howned, hpos.trans_le (hrising index r hr)⟩⟩

end

/-- Whatever a rule takes, who takes the first character is foretold, also where the rule is
recalled. -/
theorem tracks_rule {σ : Type} {E : Setting σ} {c : Context} (hfits : c.Fits c.grammar)
    (htrees : c.grammar.HasTrees) (hshapes : ∀ id, (c.grammar.shape id).Sensible)
    (hdelimits : c.Delimits)
    (hregex : RegexesEat E.input c.grammar fun id =>
      c.grammar.Owned id ∧ regexMatchesEmpty (c.grammar.shape id) = false)
    (hrising : Rising c)
    (hroot : ∀ index r taker, c.grammar.rules[index]? = some r →
      (Consumption.ofRule c r).Offers taker → (c.record index).Offers taker) (fuel index : Nat) :
    Tracks (machine E) (foretelling E (moving E.input c) c.grammar c.foretells) c.grammar
      (ruleNoting E c.grammar fuel index) (c.foretells (.rule index)) := by
  have hclosed := moving_of_ofRule hfits htrees hregex hrising
  have hrules : ∀ fuel index, Matches (machine E).watched
      (watching (machine E) E.input (Remembers (moving E.input c)) fun _ => True)
      (ruleNoting E c.grammar fuel index) (moving E.input c index) :=
    ruleNoting_matches (fun _ _ _ _ _ _ _ => trivial) (fun _ _ _ _ _ => trivial)
      (fun index a b ha h => (h ha).choose_spec.1.rest?_stop) hclosed
  refine tracks_ruleNoting hrules (fun fuel index => ?_) (fun fuel hinvoke index => ?_)
    (fun index r taker hr htaker => ?_) fuel index
  · exact (bodyNoting_matches machine_keeps (hrules fuel) (fun _ _ _ _ _ _ _ => trivial) fuel
      index).weaken (hclosed index)
  · rw [bodyNoting]
    cases hr : c.grammar.rules[index]? with
    | none => exact tracks_pure _
    | some r =>
      have howned : c.grammar.Owned r.expression := ⟨r, List.mem_of_getElem? hr, .refl⟩
      refine (tracks_evalNoting hfits htrees hshapes hdelimits foretelling_keeps foretelling_spreads
        foretelling_grows hinvoke (fun depth e env action? he => ?_) _ howned [] none).weaken
        fun _ _ => trivial
      intro s v t hs hrun
      have hmatches := evalNoting_matches machine_keeps (hrules fuel) (fun _ _ _ _ _ _ _ => trivial)
        fuel depth he env action?
      exact ((hmatches s hs.1).ok v t hrun).2.weaken
        (min_eq_zero_of_still hfits htrees hregex he hs.1.2.1)
  · exact ⟨(List.getElem?_eq_some_iff.mp hr).1, hroot index r taker hr htaker.2⟩

end Peg

open Peg Consumption

/-! ## Records in the end -/

section

variable {g : Grammar} {f : Facts}

theorem Consumption.fits_solve (htargets : ∀ id name, g.Owned id → g.shape id = .ruleRef name →
    f.target? id = g.ruleIndex? name) : (solve g f).Fits g := by
  have hrises := rises_solve g f
  refine ⟨hrises.grammar, hrises.size.trans Array.size_replicate,
    fun id hlt => emptyRegex_solve hlt, fun id name howned hshape => ?_⟩
  rw [hrises.targets]
  exact htargets id name howned hshape

/-- What the sweeps ended with is on record. -/
theorem exists_recordOf? (hf : f.consumption = nodeTable (solve g f)) (htrees : g.HasTrees)
    (hrecords : ∀ index < g.rules.length, f.record? index = some ((solve g f).record index))
    {subject : Subject} {taker : NodeId} (h : (solve g f).foretells subject taker) :
    ∃ record, f.recordOf? subject = some record ∧ taker ∈ record.first.nodes := by
  have hgrammar : (solve g f).grammar = g := (rises_solve g f).grammar
  cases subject with
  | node id =>
    obtain ⟨howned, hoffers⟩ := h
    rw [hgrammar] at howned hoffers
    exact ⟨_, recordOf?_node hf htrees howned, hoffers.first⟩
  | rule index =>
    obtain ⟨hlt, hoffers⟩ := h
    rw [hgrammar] at hlt
    exact ⟨_, hrecords index hlt, hoffers.first⟩

/-- Whoever takes a first character in a parse is listed, when the records are those that the sweeps
end with. -/
theorem matched_foretold {σ : Type} {E : Setting σ} (htrees : g.HasTrees)
    (hshapes : ∀ id, (g.shape id).Sensible)
    (hdelimiters : ∀ id min max e d, g.Owned id → g.shape id = .range min max e (some d) →
      (f.consumptionOf e).min = 0 → (f.consumptionOf d).max = .finite 0)
    (hregex : RegexesEat E.input g fun id => g.Owned id ∧ regexMatchesEmpty (g.shape id) = false)
    (htargets : ∀ id name, g.Owned id → g.shape id = .ruleRef name →
      f.target? id = g.ruleIndex? name)
    (hf : f.consumption = nodeTable (solve g f)) (fuel index : Nat) :
    Tracks (machine E) (foretelling E (moving E.input (solve g f)) g (solve g f).foretells) g
      (ruleNoting E g fuel index) ((solve g f).foretells (.rule index)) := by
  have hgrammar : (solve g f).grammar = g := (rises_solve g f).grammar
  have htrees' : (solve g f).grammar.HasTrees := by rwa [hgrammar]
  have hdelimits : (solve g f).Delimits := by
    intro id min max e d howned hshape hmin
    have hchild {x : NodeId} (hx : x ∈ (Shape.range min max e (some d)).children) :
        f.consumptionOf x = Consumption.ofNode (solve g f) (solve g f).grammar.depthBound x := by
      rw [← hshape] at hx
      exact Facts.consumptionOf_of_owned hf htrees' (howned.child hx)
    rw [← hchild List.mem_cons_self] at hmin
    rw [← hchild (List.mem_cons_of_mem _ (List.mem_singleton_self d))]
    rw [hgrammar] at howned hshape
    exact hdelimiters id min max e d howned hshape hmin
  have hfits : (solve g f).Fits (solve g f).grammar := by
    rw [hgrammar]
    exact fits_solve htargets
  have htracks := tracks_rule (E := E) hfits htrees' (by rwa [hgrammar]) hdelimits
    (by rwa [hgrammar]) (rising_solve g f)
    (fun index r taker hr hoffers => by
      rw [hgrammar] at hr
      obtain ⟨_, hsettle⟩ := settle_ofRule_solve g f hr
      exact hoffers.of_settle hsettle) fuel index
  rwa [hgrammar] at htracks

end

/-- FIRST sets are sound for every parse: take a parser of a program that is generated for a grammar
that was compiled without errors, with memoization switched on or off in it. A parse ends in the
same way when it is watched, and whatever is matched on the way that takes something, a node of the
grammar or a rule, the terminal that took the first character of it is known and listed in the
record of the node or rule. This takes a grammar in which no literal has 2 ^ 32 characters or more,
no range asks for items and allows none, and no delimiter that may consume something stands in a
range whose element may match without consuming anything; and regular expressions that never match
the empty text if they are known to consume a character. -/
theorem compile_foretells {g : Grammar} (htrees : g.HasTrees) {options : Options} {listeners : Nat}
    {compiled : Compiled} {s : Session} (h : compile g options listeners = (.ok compiled, s))
    {P : Program} (hP : s.program = some P) (hfit : P.Addressable) {switch : Bool}
    {flags : Nat → Bool} {p : Parser} (hp : p.program = P.withMemo switch flags) (hsound : p.Sound)
    {σ : Type} (handler : Handler σ) (hs : σ) {input : Input}
    (hshapes : ∀ id, (g.shape id).Sensible)
    (hdelimiters : ∀ id min max e d, s.grammar.Owned id →
      s.grammar.shape id = .range min max e (some d) → (s.facts.consumptionOf e).min = 0 →
        (s.facts.consumptionOf d).max = .finite 0)
    (hregex : RegexesEat input s.grammar fun id => (s.facts.consumptionOf id).min = 1)
    (index : Nat) (o : Outcome Slot) (t : State σ) :
    ((∃ n, p.runRule (p.setting handler input) n index
        ((p.setting handler input).initial p.statistics hs) = some (o, t)) ↔
      ∃ found, p.Finds s.grammar handler hs input index o t found) ∧
    ∀ found, p.Finds s.grammar handler hs input index o t found →
      ∀ e ∈ takers s.grammar found, e.1.start < e.1.stop →
        ∃ taker stop record, e.2 = some taker ∧ (s.grammar.shape taker).isTerminal = true ∧
          e.1.start < stop ∧ ⟨.node taker, e.1.start, stop⟩ ∈ found ∧
          s.facts.recordOf? e.1.subject = some record ∧ taker ∈ record.first.nodes := by
  obtain ⟨_, _, _, haccepted⟩ := compile_eq_ok h
  obtain ⟨code, trace, hg, hprogram⟩ := haccepted.program
  obtain ⟨eats, rule, rank, hprogress⟩ := haccepted.finalProgress htrees
  have hcarries : P.Carries code := by
    rw [hP] at hprogram
    cases hprogram
    exact Generated.program_carries hg trace
  have hruns : p.Runs s.facts s.grammar code :=
    ⟨hsound, hp ▸ hcarries.withMemo, hp ▸ hfit.withMemo⟩
  have hfinal := hprogress.hasTrees
  constructor
  · let E := p.setting handler input
    rw [hruns.runRule_iff hg haccepted.resolved (E := E) rfl, ruleNoting_iff []]
    exact exists_comm
  · rintro found ⟨n, hrun⟩ e he hlt
    have hregex' : RegexesEat input s.grammar fun id =>
        s.grammar.Owned id ∧ regexMatchesEmpty (s.grammar.shape id) = false := by
      rintro id value ignoreCase multiLine raw ⟨howned, hempty⟩ hshape
      exact hregex id value ignoreCase multiLine raw
        (Facts.min_of_regex haccepted.finalConsumption hfinal howned hshape hempty) hshape
    have hsensible := haccepted.shapes (P := Shape.Sensible) (fun _ => trivial)
      (fun _ _ => trivial) hshapes
    have htracks := matched_foretold (E := p.setting handler input) hfinal hsensible hdelimiters
      hregex' (haccepted.target?_eq hfinal) haccepted.finalConsumption n index
    have hstart : ∃ cs, input.rest? 0 = some cs := ⟨input.chars, input.rest?_zero⟩
    have hends := htracks ((p.setting handler input).initial p.statistics hs, [])
      ⟨⟨remembers_initial _ _ _, hstart, nofun⟩, remembers_initial _ _ _, foretold_nil⟩
    have hforetold : Foretold s.grammar (solve s.grammar s.facts).foretells found := by
      cases o with
      | ok v => exact (hends.ok v _ hrun).1.2.2
      | error e => exact (hends.error e _ hrun).2
    obtain ⟨taker, htaker, hlisted⟩ := hforetold e he hlt
    obtain ⟨record, hrecord, hmem⟩ :=
      exists_recordOf? haccepted.finalConsumption hfinal haccepted.finalRecords hlisted
    obtain ⟨hterminal, stop, hstop, hmatched⟩ := exists_match_of_takers he hlt htaker
    exact ⟨taker, stop, record, htaker, hterminal, hstop, hmatched, hrecord, hmem⟩

/-- A grammar of letters with commas between them. -/
def separated : Grammar where
  rules := [{ name := "start", expression := 2 }]
  nodes := #[⟨.literal "a" false, none⟩, ⟨.literal "," false, none⟩,
    ⟨.range 1 none 0 (some 1), none⟩]

/-- The program of that grammar. -/
def separatedProgram : Program where
  rules := #[⟨"start", false,
    #[1, 29, 16, 0, 2, 2, 20, 0, 21, 1, 14, 30, 6, 1, 16, 2, 2, 2, 20, 2, 21, 3, 11, 16, 1, 2, 16,
      0, 2, 2, 20, 0, 21, 1, 10, 3, 1, 2, 3, 28, 5, 5, 2, 30, 1, 3, 1, 2, 3, 28, 5]⟩]
  constants := #[.string "a", .expected (.literal "a"), .string ",", .expected (.literal ",")]
  actions := #[]
  starters := [0]
  defaultStart := 0
  memoize := false
  trace := false
  statistics := false

theorem separated_hasTrees : separated.HasTrees := by
  have hordered : separated.Ordered := by
    unfold Grammar.Ordered
    decide
  have hroots : ∀ r ∈ separated.rules, r.expression < separated.nodes.size := by decide
  exact fun r hr => hordered.tree (hroots r hr)

/-- The grammar is accepted as it is. -/
theorem separated_compiled : ∃ compiled,
    compile separated {} 0 = (.ok compiled, (compile separated {} 0).2) ∧
      (compile separated {} 0).2.program = some separatedProgram ∧
      (compile separated {} 0).2.grammar = separated := by
  have hends : (compile separated {} 0).1.isOk = true ∧
      (compile separated {} 0).2.program = some separatedProgram ∧
      (compile separated {} 0).2.grammar = separated := by decide +kernel
  obtain ⟨compiled, hcompiled⟩ := exists_compiled hends.1
  exact ⟨compiled, hcompiled, hends.2⟩

/-- In that grammar only letters stand before delimiters, and there are no regular expressions. -/
theorem separated_shape (id : NodeId) :
    (∀ min max e d, separated.shape id = .range min max e (some d) → e = 0) ∧
      ∀ value ignoreCase multiLine raw,
        separated.shape id ≠ .regex value ignoreCase multiLine raw := by
  refine Grammar.forall_shape (P := fun shape =>
    (∀ min max e d, shape = .range min max e (some d) → e = 0) ∧
      ∀ value ignoreCase multiLine raw, shape ≠ .regex value ignoreCase multiLine raw)
    ⟨nofun, nofun⟩ (fun n hn => ?_) id
  simp only [separated, List.mem_toArray, List.mem_cons, List.not_mem_nil, or_false] at hn
  rcases hn with rfl | rfl | rfl
  · exact ⟨nofun, nofun⟩
  · exact ⟨nofun, nofun⟩
  · refine ⟨fun min max e d h => ?_, nofun⟩
    cases h
    rfl

/-- Whoever takes a first character of some letters is listed. -/
theorem separated_foretells :
    ∃ found : List Matched, ⟨.rule 0, 0, 3⟩ ∈ found ∧
      ∀ e ∈ takers (compile separated {} 0).2.grammar found, e.1.start < e.1.stop →
        ∃ taker stop record, e.2 = some taker ∧
          ((compile separated {} 0).2.grammar.shape taker).isTerminal = true ∧
          e.1.start < stop ∧ ⟨.node taker, e.1.start, stop⟩ ∈ found ∧
          (compile separated {} 0).2.facts.recordOf? e.1.subject = some record ∧
          taker ∈ record.first.nodes := by
  let p := Parser.interpreted (separatedProgram.withMemo true fun _ => true)
  have hends : ((p.runRule (p.setting (.none : Handler Unit) (.ofString "a,a")) 60 0
      ((p.setting .none (.ofString "a,a")).initial p.statistics ())).any
        fun r => r.1.toOption.any (!·.isFailed) && r.2.pos == 3) = true := by decide +kernel
  obtain ⟨⟨o, t⟩, hrun, hmatched⟩ := (Option.any_eq_true _ _).mp hends
  obtain ⟨compiled, hcompiled, hprogram, hgrammar⟩ := separated_compiled
  have hfit : separatedProgram.Addressable := by constructor <;> decide
  have hshapes : ∀ id, (separated.shape id).Sensible := Grammar.forall_shape trivial (by decide)
  have hmin : ((compile separated {} 0).2.facts.consumptionOf 0).min = 1 := by decide +kernel
  have hp : p.program = separatedProgram.withMemo true fun _ => true := rfl
  have hregex : RegexesEat (.ofString "a,a") (compile separated {} 0).2.grammar fun id =>
      ((compile separated {} 0).2.facts.consumptionOf id).min = 1 := by
    intro id value ignoreCase multiLine raw _ hshape
    rw [hgrammar] at hshape
    exact absurd hshape ((separated_shape id).2 value ignoreCase multiLine raw)
  obtain ⟨hsame, hforetold⟩ := compile_foretells separated_hasTrees hcompiled hprogram hfit hp
    (Parser.sound_interpreted _) .none () hshapes (fun id min max e d _ hshape hzero => by
      rw [hgrammar] at hshape
      obtain rfl := (separated_shape id).1 min max e d hshape
      rw [hmin] at hzero
      cases hzero) hregex 0 o t
  obtain ⟨found, n, hfound⟩ := hsame.mp ⟨60, hrun⟩
  refine ⟨found, ?_, hforetold found ⟨n, hfound⟩⟩
  rw [Bool.and_eq_true, beq_iff_eq] at hmatched
  obtain ⟨hv, hstop⟩ := hmatched
  cases o with
  | error e => cases hv
  | ok v =>
    have hmem := mem_of_ruleNoting hfound (by simpa [Except.toOption] using hv)
    rwa [hstop] at hmem

/-- A grammar of commas between letters, each of which may be missing. -/
def unlisted : Grammar where
  rules := [{ name := "start", expression := 3 }]
  nodes := #[⟨.literal "a" false, none⟩, ⟨.optional 0, none⟩, ⟨.literal "," false, none⟩,
    ⟨.range 2 (some 2) 1 (some 2), none⟩]

/-- The delimiter of such a range takes the first character without being listed. -/
example :
    let s := (compile unlisted {} 0).2
    let p := Parser.interpreted (s.program.getD default)
    let E := p.setting (.none : Handler Unit) (.ofString ",")
    (s.facts.consumptionOf 3).first.nodes = [0] ∧
      (ruleNoting E s.grammar 9 0 (E.initial p.statistics (), [])).any (fun r =>
        (takers s.grammar r.2.2).contains (⟨.node 3, 0, 1⟩, some 2)) = true := by decide +kernel

end PegMachine
