import PegMachine.Proofs.Peg

/-!
# What expressions may take

A language says from where to where in the input an expression may match. The language of an
expression is put together from the languages of its parts and those of rules; which of several
matches is preferred, what actions decide and what is recalled from a memo table is left open by it.
Evaluation keeps to the language of the expression, and a failure leaves the input where it was.
-/

namespace PegMachine

namespace Peg

variable {S α β : Type}

/-- What holds of the result of a run from a state, and what holds if the run was ended without
one. -/
structure Ends (F : S → Prop) (x : Run S α) (s : S) (Q : α → S → Prop) : Prop where
  ok : ∀ a s', x s = some (.ok a, s') → Q a s'
  error : ∀ e s', x s = some (.error e, s') → F s'

namespace Ends

variable {F : S → Prop} {x : Run S α} {s : S} {Q : α → S → Prop}

theorem pure {a : α} (h : Q a s) : Ends F (Pure.pure a : Run S α) s Q := by
  refine ⟨fun b s' hx => ?_, fun e s' hx => by cases hx⟩
  cases hx
  exact h

theorem bind {f : α → Run S β} {Q' : β → S → Prop} (hx : Ends F x s Q)
    (hf : ∀ a s', Q a s' → Ends F (f a) s' Q') : Ends F (x >>= f) s Q' := by
  refine ⟨fun b u hrun => ?_, fun e u hrun => ?_⟩
  · rcases Run.bind_eq_some.mp hrun with ⟨a, s', hxa, hfa⟩ | ⟨e, -, ho⟩
    · exact (hf a s' (hx.ok a s' hxa)).ok b u hfa
    · cases ho
  · rcases Run.bind_eq_some.mp hrun with ⟨a, s', hxa, hfa⟩ | ⟨e', hxe, ho⟩
    · exact (hf a s' (hx.ok a s' hxa)).error e u hfa
    · cases ho
      exact hx.error e u hxe

theorem ite {p : Prop} [Decidable p] {y : Run S α} (hx : p → Ends F x s Q)
    (hy : ¬p → Ends F y s Q) : Ends F (if p then x else y) s Q := by
  split
  · next h => exact hx h
  · next h => exact hy h

theorem of_eq {a : α} {s' : S} (hx : x s = some (.ok a, s')) (h : Q a s') : Ends F x s Q := by
  refine ⟨fun b t hrun => ?_, fun e t hrun => ?_⟩
  · rw [hx] at hrun
    cases hrun
    exact h
  · rw [hx] at hrun
    cases hrun

theorem of_none (hx : x s = none) : Ends F x s Q := by
  refine ⟨fun b t hrun => ?_, fun e t hrun => ?_⟩
  · rw [hx] at hrun
    cases hrun
  · rw [hx] at hrun
    cases hrun

theorem mono {Q' : α → S → Prop} (hx : Ends F x s Q) (h : ∀ a s', Q a s' → Q' a s') :
    Ends F x s Q' := ⟨fun a s' hrun => h a s' (hx.ok a s' hrun), hx.error⟩

theorem and {G : S → Prop} {Q' : α → S → Prop} (hx : Ends F x s Q) (hx' : Ends G x s Q') :
    Ends (fun t => F t ∧ G t) x s fun a t => Q a t ∧ Q' a t :=
  ⟨fun a t h => ⟨hx.ok a t h, hx'.ok a t h⟩, fun e t h => ⟨hx.error e t h, hx'.error e t h⟩⟩

/-- What holds before a repetition and is kept by each round holds after it. -/
theorem repeatWhile {test : α → S → Bool} {step : α → Run S α} {J : α → S → Prop}
    (hstep : ∀ a s, J a s → test a s = true → Ends F (step a) s J) (rounds : Nat) (a : α)
    (h : J a s) :
    Ends F (Run.repeatWhile test step rounds a) s fun b s' => J b s' ∧ test b s' = false := by
  induction rounds generalizing a s with
  | zero => exact ⟨nofun, nofun⟩
  | succ rounds ih =>
    cases hgo : test a s with
    | false =>
      refine ⟨fun b s' hrun => ?_, fun e s' hrun => ?_⟩
      · rw [Run.repeatWhile_of_not hgo] at hrun
        cases hrun
        exact ⟨h, hgo⟩
      · rw [Run.repeatWhile_of_not hgo] at hrun
        cases hrun
    | true =>
      have hrest := (hstep a s h hgo).bind fun c u hc => ih c hc
      refine ⟨fun b s' hrun => ?_, fun e s' hrun => ?_⟩
      · rw [Run.repeatWhile_of_test hgo] at hrun
        exact hrest.ok b s' hrun
      · rw [Run.repeatWhile_of_test hgo] at hrun
        exact hrest.error e s' hrun

end Ends

/-! ## Languages -/

/-- From where to where in the input an expression may match. -/
abbrev Language := Nat → Nat → Prop

namespace Language

/-- Where one match may lead on to another. -/
def andThen (L M : Language) : Language := fun a c => ∃ b, L a b ∧ M b c

/-- A number of matches in a row. -/
def power (L : Language) : Nat → Language
  | 0 => Eq
  | n + 1 => (power L n).andThen L

/-- The first of some matches in a row can be told from the others as well as the last one. -/
theorem power_succ_left {L : Language} {n a c : Nat} :
    power L (n + 1) a c ↔ L.andThen (power L n) a c := by
  induction n generalizing c with
  | zero => simp [power, andThen]
  | succ n ih =>
    constructor
    · rintro ⟨b, hpower, hlast⟩
      obtain ⟨b', hfirst, hmiddle⟩ := ih.mp hpower
      exact ⟨b', hfirst, b, hmiddle, hlast⟩
    · rintro ⟨b', hfirst, b, hmiddle, hlast⟩
      exact ⟨b, ih.mpr ⟨b', hfirst, hmiddle⟩, hlast⟩

/-- A match of each of some languages in a row. -/
def ofSequence : List Language → Language
  | [] => Eq
  | L :: rest => L.andThen (ofSequence rest)

/-- Some items with further ones after them, of which there are so many that a bound allows it. A
bound of zero comes too late for the first item. -/
def ofRange (min : UInt32) (max : Option UInt32) (item further : Language) : Language := fun a b =>
  (min = 0 ∧ a = b) ∨
    ∃ n, item.andThen (power further n) a b ∧ min.toNat ≤ n + 1 ∧
      (n = 0 ∨ ∀ m ∈ max, n + 1 ≤ m.toNat)

/-- What a terminal may match. -/
def ofTerminal (input : Input) (shape : Shape) : Language := fun a b =>
  ∃ text, taken? input a shape = some text ∧ b = a + Text.byteSize text

/-- What a node may match, given a bound on the depth below it and what rules may match. -/
def ofNode (input : Input) (g : Grammar) (rule : Nat → Language) : Nat → NodeId → Language
  | 0, _ => fun _ _ => False
  | depth + 1, id =>
    let child := ofNode input g rule depth
    match g.shape id with
    | .named _ e | .action e _ | .labeled _ e | .text e => child e
    | .choice es => fun a b => ∃ e ∈ es, child e a b
    | .sequence es => ofSequence (es.map child)
    | .optional e => fun a b => a = b ∨ child e a b
    | .zeroOrMore e => fun a b => ∃ n, power (child e) n a b
    | .oneOrMore e => fun a b => ∃ n, (child e).andThen (power (child e) n) a b
    | .range min max e delimiter =>
      if max = some 0 ∧ min = 0 then Eq
      else ofRange min max (child e) (delimiter.elim (child e) fun d => (child d).andThen (child e))
    | .simpleAnd _ | .simpleNot _ | .semanticAnd _ | .semanticNot _ | .code _ => Eq
    | .ruleRef name => fun a b => ∃ index, g.ruleIndex? name = some index ∧ rule index a b
    | shape => ofTerminal input shape

/-- What a rule may match, given what the rules it refers to may match. -/
def ofRule (input : Input) (g : Grammar) (rule : Nat → Language) (index : Nat) : Language :=
  fun a b => ∃ r, g.rules[index]? = some r ∧ ofNode input g rule g.depthBound r.expression a b

end Language

open Peg.Language

/-! ## Keeping to a language -/

/-- What holds all along a parse. -/
structure Invariant (S : Type) where
  /-- The offsets to which a parse may go. -/
  offsets : Nat → Prop
  /-- What holds of the states from which a parse goes on. -/
  holds : S → Prop
  /-- What holds of the state in which a parse was ended by an action. -/
  ended : S → Prop

instance : CoeFun (Invariant S) fun _ => S → Prop := ⟨Invariant.holds⟩

/-- An invariant that has nothing to do with offsets and is of no interest once a parse was
ended. -/
def Invariant.of (I : S → Prop) : Invariant S := ⟨fun _ => True, I, fun _ => True⟩

/-- Terminals lead from offsets to which a parse may go to such offsets. -/
def Invariant.Spreads (I : Invariant S) (input : Input) : Prop :=
  ∀ a shape text, I.offsets a → taken? input a shape = some text →
    I.offsets (a + Text.byteSize text)

theorem Invariant.spreads_of (I : S → Prop) (input : Input) : (Invariant.of I).Spreads input :=
  fun _ _ _ _ _ => trivial

/-- A recognizer keeps an invariant, and moves only when told to or when an action withdraws a
match. -/
structure Ops.Keeps (O : Ops S) (I : Invariant S) : Prop where
  pos : ∀ s, I s → I.offsets (O.pos s)
  goTo : ∀ p s, I.offsets p → I s → I (O.goTo p s) ∧ O.pos (O.goTo p s) = p
  fail : ∀ e s, I s → I (O.fail e s) ∧ O.pos (O.fail e s) = O.pos s
  discard : ∀ s, I s → I (O.discard s) ∧ O.pos (O.discard s) = O.pos s
  hush : ∀ s, I s → I (O.hush s) ∧ O.pos (O.hush s) = O.pos s
  unhush : ∀ s v t, I s → I t → I (O.unhush s (.ok v) t) ∧ O.pos (O.unhush s (.ok v) t) = O.pos t
  unhush_ended : ∀ s e t, I s → I.ended t → I.ended (O.unhush s (.error e) t)
  call : ∀ a start args s v t, I.offsets start → I s → O.call a start args s = (.ok v, t) →
    I t ∧ O.pos t = if v.isFailed then start else O.pos s
  call_ended : ∀ a start args s e t, I.offsets start → I s →
    O.call a start args s = (.error e, t) → I.ended t

/-- What holds if both of two invariants do. -/
def Invariant.and (I J : Invariant S) : Invariant S where
  offsets p := I.offsets p ∧ J.offsets p
  holds s := I s ∧ J s
  ended s := I.ended s ∧ J.ended s

theorem Ops.Keeps.and {O : Ops S} {I J : Invariant S} (h : O.Keeps I) (h' : O.Keeps J) :
    O.Keeps (I.and J) where
  pos s hs := ⟨h.pos s hs.1, h'.pos s hs.2⟩
  goTo p s hp hs := ⟨⟨(h.goTo p s hp.1 hs.1).1, (h'.goTo p s hp.2 hs.2).1⟩, (h.goTo p s hp.1 hs.1).2⟩
  fail e s hs := ⟨⟨(h.fail e s hs.1).1, (h'.fail e s hs.2).1⟩, (h.fail e s hs.1).2⟩
  discard s hs := ⟨⟨(h.discard s hs.1).1, (h'.discard s hs.2).1⟩, (h.discard s hs.1).2⟩
  hush s hs := ⟨⟨(h.hush s hs.1).1, (h'.hush s hs.2).1⟩, (h.hush s hs.1).2⟩
  unhush s v t hs ht :=
    ⟨⟨(h.unhush s v t hs.1 ht.1).1, (h'.unhush s v t hs.2 ht.2).1⟩, (h.unhush s v t hs.1 ht.1).2⟩
  unhush_ended s e t hs ht :=
    ⟨h.unhush_ended s e t hs.1 ht.1, h'.unhush_ended s e t hs.2 ht.2⟩
  call a start args s v t hstart hs hrun :=
    ⟨⟨(h.call a start args s v t hstart.1 hs.1 hrun).1,
      (h'.call a start args s v t hstart.2 hs.2 hrun).1⟩,
      (h.call a start args s v t hstart.1 hs.1 hrun).2⟩
  call_ended a start args s e t hstart hs hrun :=
    ⟨h.call_ended a start args s e t hstart.1 hs.1 hrun,
      h'.call_ended a start args s e t hstart.2 hs.2 hrun⟩

/-- How an expression that was begun at an offset may leave the input: a failure where the
expression was begun, a match where a language allows it. -/
def Left (L : Language) (start : Nat) (v : Slot) (stop : Nat) : Prop :=
  if v.isFailed then stop = start else L start stop

/-- An expression keeps an invariant and leaves the input so, from wherever it is begun. -/
def Matches (O : Ops S) (I : Invariant S) (x : Run S Slot) (L : Language) : Prop :=
  ∀ s, I s → Ends I.ended x s fun v t => I t ∧ Left L (O.pos s) v (O.pos t)

section

variable {L M : Language} {start stop : Nat} {v : Slot}

theorem Left.of_failed (h : Left L start v stop) (hv : v.isFailed = true) : stop = start := by
  rwa [Left, if_pos hv] at h

theorem Left.of_matched (h : Left L start v stop) (hv : ¬v.isFailed = true) : L start stop := by
  rwa [Left, if_neg hv] at h

theorem Left.failed (h : stop = start) : Left L start .failed stop := h

theorem Left.matched (hv : ¬v.isFailed = true) (h : L start stop) : Left L start v stop := by
  rwa [Left, if_neg hv]

theorem Left.weaken (h : Left L start v stop) (himp : L start stop → M start stop) :
    Left M start v stop := by
  by_cases hv : v.isFailed = true
  · rw [Left, if_pos hv]
    exact h.of_failed hv
  · exact .matched hv (himp (h.of_matched hv))

variable {O : Ops S} {I : Invariant S} {x : Run S Slot}

theorem Matches.weaken (h : Matches O I x L) (himp : ∀ a b, L a b → M a b) : Matches O I x M :=
  fun s hs => (h s hs).mono fun _ _ ⟨ht, hleft⟩ => ⟨ht, hleft.weaken (himp _ _)⟩

theorem matches_forever : Matches O I .forever L := fun _ _ => .of_none rfl

/-! ## Single steps -/

variable (hO : O.Keeps I)

theorem ends_here_bind {f : Nat → Run S α} {Q : α → S → Prop} {s : S}
    (h : Ends I.ended (f (O.pos s)) s Q) : Ends I.ended (here O >>= f) s Q := ⟨h.ok, h.error⟩

include hO

theorem ends_goTo {p : Nat} {s : S} (hp : I.offsets p) (hs : I s) :
    Ends I.ended (goTo O p) s fun _ t => I t ∧ O.pos t = p := .of_eq rfl (hO.goTo p s hp hs)

theorem ends_want {e : Expectation} {p : Nat} {s : S} (hs : I s) (hp : O.pos s = p) :
    Ends I.ended (want O e) s fun v t => I t ∧ Left L p v (O.pos t) :=
  .of_eq rfl ⟨(hO.fail e s hs).1, .failed ((hO.fail e s hs).2.trans hp)⟩

theorem ends_discard {p : Nat} {s : S} (hs : I s) (hp : O.pos s = p) :
    Ends I.ended (discard O) s fun v t => I t ∧ Left L p v (O.pos t) :=
  .of_eq rfl ⟨(hO.discard s hs).1, .failed ((hO.discard s hs).2.trans hp)⟩

theorem ends_retreat {p : Nat} {s : S} (hp : I.offsets p) (hs : I s) :
    Ends I.ended (retreat O p) s fun v t => I t ∧ Left L p v (O.pos t) :=
  (ends_goTo hO hp hs).bind fun _ _ ⟨hu, hpos⟩ => ends_discard hO hu hpos

/-- An action does not move, unless it withdraws the match. -/
theorem ends_act (source : String) {p : Nat} (hp : I.offsets p) (env : Env) {s : S} (hs : I s) :
    Ends I.ended (act O source p env) s fun v t =>
      I t ∧ O.pos t = if v.isFailed then p else O.pos s := by
  refine ⟨fun v t hrun => ?_, fun e t hrun => ?_⟩
  · rw [act_apply, Option.some.injEq] at hrun
    exact hO.call _ p _ s v t hp hs hrun
  · rw [act_apply, Option.some.injEq] at hrun
    exact hO.call_ended _ p _ s e t hp hs hrun

/-- An action that is run where its expression begins does not move at all. -/
theorem ends_act_here (source : String) {p : Nat} (env : Env) {s : S} (hs : I s)
    (hp : O.pos s = p) : Ends I.ended (act O source p env) s fun _ t => I t ∧ O.pos t = p :=
  (ends_act hO source (hp ▸ hO.pos s hs) env hs).mono fun _ _ ⟨ht, hpos⟩ =>
    ⟨ht, by rwa [hp, ite_self] at hpos⟩

/-- What holds of doing something holds of doing it quietly, unless reporting failures again makes a
difference. -/
theorem Ends.quietly_of {Q : Slot → S → Prop} {s : S} (hs : I s)
    (hx : Ends I.ended x (O.hush s) fun v u => I u ∧ Q v u)
    (hQ : ∀ v u, I u → Q v u → Q v (O.unhush s (.ok v) u)) :
    Ends I.ended (quietly O x) s fun v u => I u ∧ Q v u := by
  cases hxs : x (O.hush s) with
  | none => exact .of_none (by rw [Peg.quietly, hxs])
  | some r =>
    obtain ⟨o, u⟩ := r
    have hsome : Peg.quietly O x s = some (o, O.unhush s o u) := by rw [Peg.quietly, hxs]
    refine ⟨fun v t hrun => ?_, fun e t hrun => ?_⟩
    · rw [hsome] at hrun
      cases hrun
      obtain ⟨hu, hq⟩ := hx.ok v u hxs
      exact ⟨(hO.unhush s v u hs hu).1, hQ v u hu hq⟩
    · rw [hsome] at hrun
      cases hrun
      exact hO.unhush_ended s e u hs (hx.error e u hxs)

/-- Doing something quietly moves as doing it does. -/
theorem Ends.quietly {Q : Slot → Nat → Prop} {s : S} (hs : I s)
    (hx : ∀ t, I t → O.pos t = O.pos s → Ends I.ended x t fun v u => I u ∧ Q v (O.pos u)) :
    Ends I.ended (quietly O x) s fun v u => I u ∧ Q v (O.pos u) := by
  obtain ⟨hhush, hpos⟩ := hO.hush s hs
  refine Ends.quietly_of hO hs (hx _ hhush hpos) fun v u hu hq => ?_
  rwa [(hO.unhush s v u hs hu).2]

theorem Matches.quietly (hx : Matches O I x L) : Matches O I (quietly O x) L := fun _ hs =>
  Ends.quietly hO hs fun t ht hpos => (hx t ht).mono fun _ _ h => by rwa [hpos] at h

theorem matches_terminal {input : Input} (hI : I.Spreads input) (shape : Shape) :
    Matches O I (terminal O input shape) (ofTerminal input shape) := by
  intro s hs
  cases htaken : taken? input (O.pos s) shape with
  | none =>
    exact .of_eq (by rw [terminal, htaken])
      ⟨(hO.fail _ s hs).1, .failed (hO.fail _ s hs).2⟩
  | some text =>
    obtain ⟨ht, hpos⟩ :=
      hO.goTo (O.pos s + Text.byteSize text) s (hI _ shape text (hO.pos s hs) htaken) hs
    exact .of_eq (by rw [terminal, htaken])
      ⟨ht, .matched (by simp [Slot.text, Slot.isFailed]) ⟨text, htaken, hpos⟩⟩

/-! ## Composite expressions -/

theorem Matches.named (hx : Matches O I x L) (name : String) :
    Matches O I (named O name x) L := by
  intro s hs
  exact (hx.quietly hO s hs).bind fun v u ⟨hu, hleft⟩ => Ends.ite
    (fun hv => ends_want hO hu (hleft.of_failed hv)) fun _ => .pure ⟨hu, hleft⟩

omit hO in
theorem matches_choice {f : NodeId → Run S Slot} {node : NodeId → Language}
    {es : List NodeId} (hf : ∀ e ∈ es, Matches O I (f e) (node e)) :
    Matches O I (choice (es.map f)) fun a b => ∃ e ∈ es, node e a b := by
  induction es with
  | nil => exact fun s hs => .pure ⟨hs, .failed rfl⟩
  | cons first rest ih =>
    have hfirst := (hf first List.mem_cons_self).weaken
      (M := fun a b => ∃ e ∈ first :: rest, node e a b) fun a b h => ⟨first, List.mem_cons_self, h⟩
    cases rest with
    | nil => exact hfirst
    | cons second rest =>
      intro s hs
      refine (hfirst s hs).bind fun v u ⟨hu, hleft⟩ => Ends.ite (fun hv => ?_) fun _ =>
        .pure ⟨hu, hleft⟩
      have hrest := (ih fun e he => hf e (List.mem_cons_of_mem _ he)).weaken
        (M := fun a b => ∃ e ∈ first :: second :: rest, node e a b)
        (fun a b ⟨e, he, h⟩ => ⟨e, List.mem_cons_of_mem _ he, h⟩) u hu
      rwa [hleft.of_failed hv] at hrest

omit hO in
theorem Matches.text (hx : Matches O I x L) (input : Input) : Matches O I (text O input x) L := by
  intro s hs
  refine ends_here_bind ((hx s hs).bind fun v u ⟨hu, hleft⟩ => Ends.ite
    (fun _ => .pure ⟨hu, hleft⟩) fun hv => ends_here_bind (.pure ?_))
  exact ⟨hu, .matched (by simp [Slot.text, Slot.isFailed]) (hleft.of_matched hv)⟩

omit hO in
theorem Matches.optional (hx : Matches O I x L) :
    Matches O I (optional x) fun a b => a = b ∨ L a b := by
  intro s hs
  refine (hx s hs).bind fun v u ⟨hu, hleft⟩ => Ends.ite (fun hv => .pure ⟨hu, ?_⟩) fun hv =>
    .pure ⟨hu, .matched hv (.inr (hleft.of_matched hv))⟩
  exact .matched (by simp [Slot.isFailed]) (.inl (hleft.of_failed hv).symm)

theorem Matches.predicate (hx : Matches O I x L) (negative : Bool) :
    Matches O I (predicate O negative x) Eq := by
  have hundefined : ∀ {p q : Nat}, q = p → Left Eq p (.value .undefined) q := fun h =>
    .matched (by simp [Slot.isFailed]) h.symm
  intro s hs
  refine ends_here_bind ((hx.quietly hO s hs).bind fun v u ⟨hu, hleft⟩ => Ends.ite (fun _ => ?_)
    fun _ => ?_)
  · exact Ends.ite (fun hv => .pure ⟨hu, hundefined (hleft.of_failed hv)⟩) fun _ =>
      ends_retreat hO (hO.pos s hs) hu
  · exact Ends.ite (fun hv => ends_discard hO hu (hleft.of_failed hv)) fun _ =>
      (ends_goTo hO (hO.pos s hs) hu).bind fun _ t ⟨ht, hpos⟩ => .pure ⟨ht, hundefined hpos⟩

theorem matches_semantic (source : String) (negative : Bool) (env : Env) :
    Matches O I (semantic O source negative env) Eq := by
  intro s hs
  have hact : Ends I.ended (Peg.quietly O (act O source (O.pos s) env)) s fun _ u =>
      I u ∧ O.pos u = O.pos s :=
    Ends.quietly (Q := fun _ p => p = O.pos s) hO hs fun t ht hpos =>
      ends_act_here hO source env ht hpos
  exact ends_here_bind (hact.bind fun v u ⟨hu, hpos⟩ => Ends.ite
    (fun _ => ends_discard hO hu hpos) fun _ =>
      .pure ⟨hu, .matched (by simp [Slot.isFailed]) hpos.symm⟩)

theorem matches_code (source : String) (env : Env) : Matches O I (code O source env) Eq := by
  intro s hs
  exact ends_here_bind ((ends_act_here hO source env hs rfl).bind fun v u ⟨hu, hpos⟩ => Ends.ite
    (fun _ => ends_want hO hu hpos) fun hv => .pure ⟨hu, .matched hv hpos.symm⟩)

omit hO in
/-- There are as many items as there were matches, the first one included, and each further one was
asked for when there were so many that one more was allowed. -/
theorem ends_items (more : Nat → Prop) {again : List Value → Run S Slot}
    (hagain : ∀ values, Matches O I (again values) fun a b => more values.length ∧ M a b)
    (rounds : Nat) (first : Slot) {s : S} (hs : I s) :
    Ends I.ended (items rounds again first) s fun values t => I t ∧
      if first.isFailed then values = [] ∧ O.pos t = O.pos s
      else ∃ n, values.length = n + 1 ∧ power M n (O.pos s) (O.pos t) ∧ (n = 0 ∨ more n) := by
  -- While the last item is still to be kept, it counts as a match but not among the values.
  let J (a : List Value × Slot) (u : S) : Prop := I u ∧
    if first.isFailed then a = ([], first) ∧ O.pos u = O.pos s
    else ∃ n, a.1.length + (if a.2.isFailed then 0 else 1) = n + 1 ∧
      power M n (O.pos s) (O.pos u) ∧ (n = 0 ∨ more n)
  have hinit : J ([], first) s := by
    refine ⟨hs, ?_⟩
    split
    · exact ⟨rfl, rfl⟩
    · exact ⟨0, by simp, rfl, .inl rfl⟩
  have hloop : Ends I.ended (Run.repeatWhile mayFollow (another again) rounds ([], first)) s _ :=
    Ends.repeatWhile (J := J) (fun a u ⟨hu, ha⟩ hgo => ?_) rounds ([], first) hinit
  · refine hloop.bind fun a u ⟨⟨hu, ha⟩, hstop⟩ => .pure ⟨hu, ?_⟩
    have hfailed : a.2.isFailed = true := by simpa [mayFollow] using hstop
    split at ha
    · next h =>
      rw [if_pos h]
      exact ⟨by rw [ha.1], ha.2⟩
    · next h =>
      rw [if_neg h]
      simpa [hfailed] using ha
  · have hmatched : a.2.isFailed = false := by simpa [mayFollow] using hgo
    have hfirst : ¬first.isFailed = true := by
      intro h
      rw [if_pos h] at ha
      rw [ha.1, h] at hmatched
      cases hmatched
    rw [if_neg hfirst] at ha
    obtain ⟨n, hlength, hpower, hmore⟩ := ha
    rw [hmatched] at hlength
    have hkept : (a.1 ++ [a.2.toValue]).length = n + 1 := by simpa using hlength
    refine (hagain _ u hu).bind fun v w ⟨hw, hleft⟩ => .pure ⟨hw, ?_⟩
    rw [if_neg hfirst]
    by_cases hv : v.isFailed = true
    · exact ⟨n, by simp [hv, hkept], by rwa [hleft.of_failed hv], hmore⟩
    · obtain ⟨hallowed, hm⟩ := hleft.of_matched hv
      rw [hkept] at hallowed
      exact ⟨n + 1, by simp [hv, hkept], ⟨_, hpower, hm⟩, .inr hallowed⟩

omit hO in
theorem Matches.zeroOrMore (hx : Matches O I x L) (rounds : Nat) :
    Matches O I (zeroOrMore rounds x) fun a b => ∃ n, power L n a b := by
  intro s hs
  have hagain : ∀ _ : List Value, Matches O I x fun a b => True ∧ L a b :=
    fun _ => hx.weaken fun _ _ h => ⟨trivial, h⟩
  refine (hx s hs).bind fun v u ⟨hu, hleft⟩ =>
    (ends_items (fun _ => True) hagain rounds v hu).bind fun values w ⟨hw, hitems⟩ =>
      .pure ⟨hw, .matched (by simp [Slot.isFailed]) ?_⟩
  split at hitems
  · next hv => exact ⟨0, (hitems.2.trans (hleft.of_failed hv)).symm⟩
  · next hv =>
    obtain ⟨n, -, hpower, -⟩ := hitems
    exact ⟨n + 1, power_succ_left.mpr ⟨_, hleft.of_matched hv, hpower⟩⟩

theorem Matches.oneOrMore (hx : Matches O I x L) (rounds : Nat) :
    Matches O I (oneOrMore O rounds x) fun a b => ∃ n, L.andThen (power L n) a b := by
  intro s hs
  have hagain : ∀ _ : List Value, Matches O I x fun a b => True ∧ L a b :=
    fun _ => hx.weaken fun _ _ h => ⟨trivial, h⟩
  refine (hx s hs).bind fun v u ⟨hu, hleft⟩ => Ends.ite
    (fun hv => ends_discard hO hu (hleft.of_failed hv)) fun hv =>
      (ends_items (fun _ => True) hagain rounds v hu).bind fun values w ⟨hw, hitems⟩ =>
        .pure ⟨hw, .matched (by simp [Slot.isFailed]) ?_⟩
  rw [if_neg hv] at hitems
  obtain ⟨n, -, hpower, -⟩ := hitems
  exact ⟨n, _, hleft.of_matched hv, hpower⟩

theorem Matches.delimited {d : Run S Slot} (hd : Matches O I d M) (hx : Matches O I x L) :
    Matches O I (delimited O d x) (M.andThen L) := by
  intro s hs
  refine ends_here_bind ((hd s hs).bind fun v u ⟨hu, hleft⟩ => Ends.ite
    (fun hv => .pure ⟨hu, ?_⟩) fun hv => (hx u hu).bind fun w t ⟨ht, hleft'⟩ => Ends.ite
      (fun _ => ends_retreat hO (hO.pos s hs) ht) fun hw => .pure ⟨ht, .matched hw ?_⟩)
  · rw [Left, if_pos hv]
    exact hleft.of_failed hv
  · exact ⟨_, hleft.of_matched hv, hleft'.of_matched hw⟩

theorem Matches.bounded (hx : Matches O I x M) (max : Option UInt32) (values : List Value) :
    Matches O I (bounded O max x values) fun a b =>
      (∀ m ∈ max, values.length < m.toNat) ∧ M a b := by
  intro s hs
  cases max with
  | none => exact hx.weaken (fun _ _ h => ⟨nofun, h⟩) s hs
  | some max =>
    refine Ends.ite (fun _ => ends_discard hO hs rfl) fun hlt => ?_
    refine hx.weaken (fun _ _ h => ⟨?_, h⟩) s hs
    rintro m ⟨⟩
    exact Nat.lt_of_not_le hlt

theorem Matches.range {further : Run S Slot} (hx : Matches O I x L)
    (hfurther : Matches O I further M) (rounds : Nat) (min : UInt32) (max : Option UInt32) :
    Matches O I (range O rounds min max x further) (ofRange min max L M) := by
  intro s hs
  refine ends_here_bind ((hx s hs).bind fun v u ⟨hu, hleft⟩ =>
    (ends_items (fun n => ∀ m ∈ max, n < m.toNat)
      (fun values => hfurther.bounded hO max values) rounds v hu).bind
        fun values w ⟨hw, hitems⟩ => Ends.ite
          (fun _ => ends_retreat hO (hO.pos s hs) hw) fun hmin =>
            .pure ⟨hw, .matched (by simp [Slot.isFailed]) ?_⟩)
  split at hitems
  · next hv =>
    obtain ⟨hnil, hpos⟩ := hitems
    rw [hnil, List.length_nil] at hmin
    refine .inl ⟨UInt32.toNat_inj.mp (by simpa using hmin), ?_⟩
    rw [hpos, hleft.of_failed hv]
  · next hv =>
    obtain ⟨n, hlength, hpower, hmore⟩ := hitems
    rw [hlength] at hmin
    exact .inr ⟨n, ⟨_, hleft.of_matched hv, hpower⟩, Nat.le_of_not_lt hmin, hmore⟩

theorem ends_sequenceEnd (action? : Option String) {p : Nat} (hp : I.offsets p)
    (values : List Slot) (env : Env) {s : S} (hs : I s) :
    Ends I.ended (sequenceEnd O action? p values env) s fun v t =>
      I t ∧ O.pos t = if v.isFailed then p else O.pos s := by
  cases action? with
  | none => exact .pure ⟨hs, by simp [Slot.wrap, Slot.isFailed]⟩
  | some source => exact ends_act hO source hp env hs

/-- A sequence goes back to where it began if one of its elements fails. -/
theorem ends_elements {eval : NodeId → Env → Run S Slot} {node : NodeId → Language}
    (g : Grammar) (action? : Option String) {p : Nat} (hp : I.offsets p) {es : List NodeId}
    (heval : ∀ e ∈ es, ∀ env, Matches O I (eval e env) (node e)) (values : List Slot) (env : Env)
    {s : S} (hs : I s) :
    Ends I.ended (elements O eval g p (sequenceEnd O action? p) es values env) s fun v t => I t ∧
      if v.isFailed then O.pos t = p else ofSequence (es.map node) (O.pos s) (O.pos t) := by
  induction es generalizing values env s with
  | nil =>
    refine (ends_sequenceEnd hO action? hp values env hs).mono fun v t ⟨ht, hpos⟩ => ⟨ht, ?_⟩
    split
    · rwa [if_pos ‹_›] at hpos
    · rw [if_neg ‹_›] at hpos
      exact hpos.symm
  | cons e es ih =>
    have hrest := ih fun e' he' => heval e' (List.mem_cons_of_mem _ he')
    refine (heval e List.mem_cons_self env s hs).bind fun v u ⟨hu, hleft⟩ => Ends.ite
      (fun _ => (ends_retreat (L := fun _ _ => False) hO hp hu).mono fun w t ⟨ht, hpos⟩ =>
        ⟨ht, ?_⟩)
      fun hv => (hrest _ _ hu).mono fun w t ⟨ht, hrest⟩ => ⟨ht, ?_⟩
    · split
      · next hw => exact hpos.of_failed hw
      · next hw => exact (hpos.of_matched hw).elim
    · split
      · rwa [if_pos ‹_›] at hrest
      · rw [if_neg ‹_›] at hrest
        exact ⟨_, hleft.of_matched hv, hrest⟩

theorem Matches.actionAround (hx : Matches O I x L) (g : Grammar) (e : NodeId) (source : String)
    (env : Env) : Matches O I (actionAround O g e x source env) L := by
  intro s hs
  refine ends_here_bind ((hx s hs).bind fun v u ⟨hu, hleft⟩ => Ends.ite
    (fun _ => .pure ⟨hu, hleft⟩) fun hv =>
      (ends_act hO source (hO.pos s hs) _ hu).mono fun w t ⟨ht, hpos⟩ => ⟨ht, ?_⟩)
  rw [hpos, Left]
  split
  · rfl
  · exact hleft.of_matched hv

/-! ## Expressions -/

/-- A node is evaluated within its language if the nodes below it are. -/
theorem level_matches {input : Input} (hI : I.Spreads input) {g : Grammar} {rule : Nat → Language}
    {invoke : Nat → Run S Slot}
    (hinvoke : ∀ index < g.rules.length, Matches O I (invoke index) (rule index))
    {ev : NodeId → Env → Option String → Run S Slot} {depth : Nat} {id : NodeId}
    (hev : ∀ e ∈ g.children id, ∀ env action?,
      Matches O I (ev e env action?) (ofNode input g rule depth e))
    (rounds : Nat) (env : Env) (action? : Option String) :
    Matches O I (level O input g invoke rounds ev id env action?)
      (ofNode input g rule (depth + 1) id) := by
  rw [Grammar.children] at hev
  simp only [level, ofNode]
  cases hshape : g.shape id <;> rw [hshape] at hev
  case named name e => exact (hev e (List.mem_singleton_self e) env none).named hO name
  case choice es => exact matches_choice fun e he => hev e he env none
  case action e source =>
    have he := hev e (List.mem_singleton_self e) env (some source)
    dsimp only
    split
    · exact he
    · exact he.actionAround hO g e source env
  case sequence es =>
    exact fun s hs => ends_here_bind
      (ends_elements hO g action? (hO.pos s hs) (fun e he env => hev e he env none) [] env hs)
  case labeled label e => exact hev e (List.mem_singleton_self e) env none
  case text e => exact (hev e (List.mem_singleton_self e) env none).text input
  case simpleAnd e => exact (hev e (List.mem_singleton_self e) env none).predicate hO false
  case simpleNot e => exact (hev e (List.mem_singleton_self e) env none).predicate hO true
  case optional e => exact (hev e (List.mem_singleton_self e) env none).optional
  case zeroOrMore e => exact (hev e (List.mem_singleton_self e) env none).zeroOrMore rounds
  case oneOrMore e => exact (hev e (List.mem_singleton_self e) env none).oneOrMore hO rounds
  case range min max e delimiter =>
    dsimp only
    split
    · exact fun s hs => .pure ⟨hs, .matched (by simp [Slot.isFailed, Slot.emptyArray]) rfl⟩
    · have hx := hev e List.mem_cons_self [] none
      cases delimiter with
      | none => exact hx.range hO hx rounds min max
      | some d =>
        have hd := hev d (List.mem_cons_of_mem _ (List.mem_singleton_self d)) [] none
        exact hx.range hO (hd.delimited hO hx) rounds min max
  case semanticAnd source => exact matches_semantic hO source false env
  case semanticNot source => exact matches_semantic hO source true env
  case ruleRef name =>
    dsimp only
    cases hindex : g.ruleIndex? name with
    | none => exact fun s hs => .pure ⟨hs, .failed rfl⟩
    | some index =>
      have hlt : index < g.rules.length := (List.findIdx?_eq_some_iff_getElem.mp hindex).1
      exact (hinvoke index hlt).weaken fun _ _ h => ⟨index, rfl, h⟩
  case code source => exact matches_code hO source env
  all_goals exact matches_terminal hO hI _

/-- A node is evaluated within its language. -/
theorem eval_matches {input : Input} (hI : I.Spreads input) {g : Grammar} {rule : Nat → Language}
    {invoke : Nat → Run S Slot}
    (hinvoke : ∀ index < g.rules.length, Matches O I (invoke index) (rule index))
    (rounds depth : Nat) (id : NodeId) (env : Env) (action? : Option String) :
    Matches O I (eval O input g invoke rounds depth id env action?)
      (ofNode input g rule depth id) := by
  induction depth generalizing id env action? with
  | zero => exact matches_forever
  | succ depth ih =>
    exact level_matches hO hI hinvoke (fun e _ => ih e) rounds env action?

/-- The expression of a rule is evaluated within its language. -/
theorem body_matches {input : Input} (hI : I.Spreads input) {g : Grammar} {rule : Nat → Language}
    {invoke : Nat → Run S Slot}
    (hinvoke : ∀ index < g.rules.length, Matches O I (invoke index) (rule index))
    (rounds index : Nat) :
    Matches O I (body O input g invoke rounds index) (ofRule input g rule index) := by
  rw [body]
  cases hr : g.rules[index]? with
  | none => exact fun s hs => .pure ⟨hs, .failed rfl⟩
  | some r =>
    exact (eval_matches hO hI hinvoke rounds g.depthBound r.expression [] none).weaken
      fun _ _ h => ⟨r, hr, h⟩

end

/-! ## On points -/

section

variable {σ : Type} {E : Setting σ} {g : Grammar}

theorem points_keeps : (points E).Keeps (.of fun _ => True) where
  pos _ _ := trivial
  goTo _ _ _ _ := ⟨trivial, rfl⟩
  fail _ _ _ := ⟨trivial, rfl⟩
  discard _ _ := ⟨trivial, rfl⟩
  hush _ _ := ⟨trivial, rfl⟩
  unhush _ _ _ _ _ := ⟨trivial, rfl⟩
  unhush_ended _ _ _ _ _ := trivial
  call := by
    intro a start args s v t _ _ hrun
    refine ⟨trivial, ?_⟩
    simp only [points, Point.call] at hrun
    split at hrun <;> cases hrun <;> rfl
  call_ended _ _ _ _ _ _ _ _ _ := trivial

/-- A rule is evaluated within its language, if that allows all that its expression may match. -/
theorem pointRule_matches {L : Nat → Language}
    (hrule : ∀ index a b, ofRule E.input g L index a b → L index a b) (fuel index : Nat) :
    Matches (points E) (.of fun _ => True) (pointRule E g fuel index) (L index) := by
  induction fuel generalizing index with
  | zero => exact matches_forever
  | succ fuel ih =>
    intro t _
    have hmatches := (body_matches points_keeps (Invariant.spreads_of _ _) (fun i _ => ih i)
      fuel index).weaken (hrule index) { t with rule := some index } trivial
    refine ⟨fun v t' hrun => ?_, fun _ _ _ => trivial⟩
    rw [pointRule] at hrun
    dsimp only at hrun
    split at hrun
    · next o u hbody =>
      cases hrun
      exact hmatches.ok v u hbody
    · cases hrun

/-- A rule that fails leaves the input where it was. -/
theorem pos_of_body_failed {fuel index : Nat} {t t' : Point σ}
    (h : body (points E) E.input g (pointRule E g fuel) fuel index t = some (.ok .failed, t')) :
    t'.pos = t.pos := by
  have hrule : ∀ index, Matches (points E) (.of fun _ => True) (pointRule E g fuel index)
      fun _ _ => True := pointRule_matches (L := fun _ _ _ => True) (fun _ _ _ _ => trivial) fuel
  have hmatches : Matches (points E) (.of fun _ => True)
      (body (points E) E.input g (pointRule E g fuel) fuel index) _ :=
    body_matches points_keeps (Invariant.spreads_of _ _) (fun i _ => hrule i) fuel index
  exact ((hmatches t trivial).ok _ _ h).2.of_failed rfl

end

end Peg

end PegMachine
