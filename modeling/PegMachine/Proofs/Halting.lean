import PegMachine.Proofs.Guards
import PegMachine.Proofs.Parses

/-!
# Guarded expressions end

A run halts if it has an outcome with enough fuel. Composite expressions halt if their parts do
where they are begun, and repetitions if each round either is the last one or leaves less to go on
with. So a guarded expression halts, provided that rules do further on in the input, and that rules
of a lower rank do where the expression is begun.
-/

namespace PegMachine

open Filter

namespace Peg

open Peg.Language Grammar

variable {S α β : Type}

/-- A run has an outcome, given enough fuel. -/
def Halts (x : Nat → Run S α) (s : S) : Prop := ∃ r, ∀ᶠ n in atTop, x n s = some r

namespace Halts

variable {x : Nat → Run S α} {s : S}

/-- A run that takes no fuel halts. -/
theorem of_eq {x : Run S α} {r : Outcome α × S} (h : x s = some r) : Halts (fun _ => x) s :=
  ⟨r, .of_forall fun _ => h⟩

theorem pure (a : α) : Halts (fun _ => (Pure.pure a : Run S α)) s := .of_eq rfl

theorem bind {f : Nat → α → Run S β} {F : S → Prop} {Q : α → S → Prop} (hx : Halts x s)
    (hends : ∀ n, Ends F (x n) s Q) (hf : ∀ a t, Q a t → Halts (fun n => f n a) t) :
    Halts (fun n => x n >>= f n) s := by
  obtain ⟨⟨o, t⟩, hx⟩ := hx
  cases o with
  | error e =>
    refine ⟨(.error e, t), ?_⟩
    filter_upwards [hx] with n hn
    exact Run.bind_error hn
  | ok a =>
    obtain ⟨n, hn⟩ := hx.exists
    obtain ⟨r, hr⟩ := hf a t ((hends n).ok a t hn)
    refine ⟨r, ?_⟩
    filter_upwards [hx, hr] with n hn hr
    rw [Run.bind_ok hn, hr]

/-- What always halts may follow anything. -/
theorem bind_any {f : Nat → α → Run S β} (hx : Halts x s)
    (hf : ∀ a t, Halts (fun n => f n a) t) : Halts (fun n => x n >>= f n) s :=
  hx.bind (F := fun _ => True) (Q := fun _ _ => True)
    (fun _ => ⟨fun _ _ _ => trivial, fun _ _ _ => trivial⟩) fun a t _ => hf a t

theorem ite {p : Prop} [Decidable p] {y : Nat → Run S α} (hx : p → Halts x s)
    (hy : ¬p → Halts y s) : Halts (fun n => if p then x n else y n) s := by
  by_cases h : p
  · simp only [if_pos h]
    exact hx h
  · simp only [if_neg h]
    exact hy h

/-- A repetition halts if each of its rounds does and leaves less to go on with. -/
theorem repeatWhile {test : α → S → Bool} {step : Nat → α → Run S α} {F : S → Prop}
    {J : α → S → Prop} {d : α → S → Nat}
    (hstep : ∀ a s, J a s → test a s = true → Halts (fun n => step n a) s)
    (hends : ∀ a s, J a s → test a s = true → ∀ n, Ends F (step n a) s fun b t =>
      J b t ∧ (test b t = true → d b t < d a s)) {a : α} (h : J a s) :
    Halts (fun n => Run.repeatWhile test (step n) n a) s := by
  suffices hmany : ∃ r N, ∀ n ≥ N, ∀ k ≥ N, Run.repeatWhile test (step n) k a s = some r by
    obtain ⟨r, N, hN⟩ := hmany
    exact ⟨r, eventually_atTop.mpr ⟨N, fun n hn => hN n hn n hn⟩⟩
  induction hd : d a s using Nat.strong_induction_on generalizing a s with
  | _ l ih =>
    cases hgo : test a s with
    | false =>
      refine ⟨(.ok a, s), 1, fun n _ k hk => ?_⟩
      obtain ⟨k, rfl⟩ := Nat.exists_eq_add_of_le' hk
      exact Run.repeatWhile_of_not hgo
    | true =>
      obtain ⟨⟨o, t⟩, hhalts⟩ := hstep a s h hgo
      obtain ⟨M, hM⟩ := eventually_atTop.mp hhalts
      cases o with
      | error e =>
        refine ⟨(.error e, t), M + 1, fun n hn k hk => ?_⟩
        obtain ⟨k, rfl⟩ := Nat.exists_eq_add_of_le' (Nat.one_le_of_lt hk)
        rw [Run.repeatWhile_of_test hgo, Run.bind_error (hM n (Nat.le_of_succ_le hn))]
      | ok b =>
        obtain ⟨hJ, hless⟩ := (hends a s h hgo M).ok b t (hM M (Nat.le_refl M))
        -- Either this was the last round, or there is less left than before.
        have hrest : ∃ r N, ∀ n ≥ N, ∀ k ≥ N, Run.repeatWhile test (step n) k b t = some r := by
          cases hagain : test b t with
          | false =>
            refine ⟨(.ok b, t), 1, fun n _ k hk => ?_⟩
            obtain ⟨k, rfl⟩ := Nat.exists_eq_add_of_le' hk
            exact Run.repeatWhile_of_not hagain
          | true => exact ih _ (hd ▸ hless hagain) hJ rfl
        obtain ⟨r, N, hN⟩ := hrest
        refine ⟨r, max M N + 1, fun n hn k hk => ?_⟩
        obtain ⟨k, rfl⟩ := Nat.exists_eq_add_of_le' (Nat.one_le_of_lt hk)
        rw [Run.repeatWhile_of_test hgo, Run.bind_ok (hM n (by omega))]
        exact hN n (by omega) k (by omega)

end Halts

/-! ## Single steps -/

section

variable {O : Ops S} {x : Nat → Run S Slot} {s : S}

theorem halts_retreat (p : Nat) : Halts (fun _ => retreat O p) s := .of_eq rfl

theorem halts_want (e : Expectation) : Halts (fun _ => want O e) s := .of_eq rfl

theorem halts_discard : Halts (fun _ => discard O) s := .of_eq rfl

theorem halts_act (source : String) (start : Nat) (env : Env) :
    Halts (fun _ => act O source start env) s := .of_eq rfl

theorem halts_terminal (input : Input) (shape : Shape) :
    Halts (fun _ => terminal O input shape) s := by
  cases htaken : taken? input (O.pos s) shape with
  | none => exact .of_eq (by rw [terminal, htaken])
  | some text => exact .of_eq (by rw [terminal, htaken])

theorem Halts.here_bind {f : Nat → Nat → Run S α} (h : Halts (fun n => f n (O.pos s)) s) :
    Halts (fun n => here O >>= f n) s := h

theorem Halts.quietly (h : Halts x (O.hush s)) : Halts (fun n => quietly O (x n)) s := by
  obtain ⟨⟨o, t⟩, hx⟩ := h
  refine ⟨(o, O.unhush s o t), ?_⟩
  filter_upwards [hx] with n hn
  rw [Peg.quietly, hn]

/-! ## Composite expressions -/

theorem Halts.named (h : Halts x (O.hush s)) (name : String) :
    Halts (fun n => named O name (x n)) s :=
  h.quietly.bind_any fun _ _ => .ite (fun _ => halts_want _) fun _ => .pure _

theorem Halts.text (h : Halts x s) (input : Input) : Halts (fun n => text O input (x n)) s :=
  .here_bind (h.bind_any fun _ _ => .ite (fun _ => .pure _) fun _ => .here_bind (.pure _))

theorem Halts.optional (h : Halts x s) : Halts (fun n => optional (x n)) s :=
  h.bind_any fun _ _ => .ite (fun _ => .pure _) fun _ => .pure _

theorem Halts.predicate (h : Halts x (O.hush s)) (negative : Bool) :
    Halts (fun n => predicate O negative (x n)) s :=
  .here_bind (h.quietly.bind_any fun _ _ => .ite
    (fun _ => .ite (fun _ => .pure _) fun _ => halts_retreat _)
    fun _ => .ite (fun _ => halts_discard) fun _ => .of_eq rfl)

theorem halts_semantic (source : String) (negative : Bool) (env : Env) :
    Halts (fun _ => semantic O source negative env) s := by
  have hact : Halts (fun _ => act O source (O.pos s) env) (O.hush s) := halts_act _ _ _
  exact .here_bind (hact.quietly.bind_any fun _ _ => .ite (fun _ => halts_discard) fun _ => .pure _)

theorem halts_code (source : String) (env : Env) : Halts (fun _ => code O source env) s := by
  have hact : Halts (fun _ => act O source (O.pos s) env) s := halts_act _ _ _
  exact .here_bind (hact.bind_any fun _ _ => .ite (fun _ => halts_want _) fun _ => .pure _)

theorem Halts.actionAround (h : Halts x s) (g : Grammar) (e : NodeId) (source : String) (env : Env) :
    Halts (fun n => actionAround O g e (x n) source env) s :=
  .here_bind (h.bind_any fun _ _ => .ite (fun _ => .pure _) fun _ => halts_act _ _ _)

/-- Items come to an end if each one that is found leaves less to go on with. -/
theorem halts_items {again : Nat → List Value → Run S Slot} {F : S → Prop}
    {J : List Value → S → Prop} {d : List Value → S → Nat}
    (hagain : ∀ values s, J values s → Halts (fun n => again n values) s)
    (hends : ∀ values s, J values s → ∀ n, Ends F (again n values) s fun v t =>
      ¬v.isFailed = true →
        J (values ++ [v.toValue]) t ∧ d (values ++ [v.toValue]) t < d values s)
    {first : Slot} (h : ¬first.isFailed = true → J [first.toValue] s) :
    Halts (fun n => items n (again n) first) s := by
  -- The last item found is among the values of the next round.
  have hloop : Halts (fun n => Run.repeatWhile mayFollow (another (again n)) n ([], first)) s := by
    refine Halts.repeatWhile (F := F)
      (J := fun a t => ¬a.2.isFailed = true → J (a.1 ++ [a.2.toValue]) t)
      (d := fun a t => d (a.1 ++ [a.2.toValue]) t) ?_ ?_ h
    · intro a t ha hgo
      have hmatched : ¬a.2.isFailed = true := by simpa [mayFollow] using hgo
      exact (hagain _ t (ha hmatched)).bind_any fun _ _ => .pure _
    · intro a t ha hgo n
      have hmatched : ¬a.2.isFailed = true := by simpa [mayFollow] using hgo
      refine (hends _ t (ha hmatched) n).bind fun v u hv => .pure ⟨fun h => (hv h).1, fun h => ?_⟩
      have hv' : ¬v.isFailed = true := by simpa [mayFollow] using h
      exact (hv hv').2
  exact hloop.bind_any fun _ _ => .pure _

end

/-! ## Places -/

/-- A place where there is a character to be read or the input ends, and no more than some number of
bytes are left. -/
def Room (input : Input) (n p : Nat) : Prop :=
  (∃ cs, input.rest? p = some cs) ∧ input.size - p ≤ n

/-- An expression halts wherever no more than some number of bytes are left. -/
def HaltsIn (O : Ops S) (I : Invariant S) (input : Input) (n : Nat) (x : Nat → Run S Slot) : Prop :=
  ∀ s, I s → Room input n (O.pos s) → Halts x s

section

variable {O : Ops S} {I : Invariant S} {input : Input} {L : Language} {marked : Prop} {n p q : Nat}

theorem Room.mono {n' : Nat} (h : Room input n p) (hle : n ≤ n') : Room input n' p :=
  ⟨h.1, h.2.trans hle⟩

theorem Room.self (h : Room input n p) : Room input (input.size - p) p := ⟨h.1, Nat.le_refl _⟩

/-- A match leads to a place, and leaves less if it consumes something. -/
theorem Room.advance (h : Room input n p) (hL : L.Takes input (Enough marked)) (hpq : L p q) :
    Room input (input.size - p) q ∧ (marked → input.size - q < input.size - p) := by
  obtain ⟨text, hspans, hlength⟩ := hL p q h.1 hpq
  obtain ⟨hle, hlt⟩ := hspans.le
  obtain ⟨cs, hq⟩ := hspans.rest?_stop
  have hsize := Input.le_size hq
  refine ⟨⟨⟨cs, hq⟩, by omega⟩, fun hmarked => ?_⟩
  have := hlt (hlength hmarked)
  omega

variable (hO : O.Keeps I)

theorem HaltsIn.mono {x : Nat → Run S Slot} {n' : Nat} (h : HaltsIn O I input n x) (hle : n' ≤ n) :
    HaltsIn O I input n' x := fun s hs hroom => h s hs (hroom.mono hle)

include hO

theorem HaltsIn.hush {x : Nat → Run S Slot} (h : HaltsIn O I input n x) {s : S} (hs : I s)
    (hroom : Room input n (O.pos s)) : Halts x (O.hush s) := by
  obtain ⟨hhush, hpos⟩ := hO.hush s hs
  exact h _ hhush (hpos ▸ hroom)

omit hO in
theorem HaltsIn.choice {f : Nat → NodeId → Run S Slot} {node : NodeId → Language} {es : List NodeId}
    (hf : ∀ m e, Matches O I (f m e) (node e))
    (hhalts : ∀ e ∈ es, HaltsIn O I input n fun m => f m e) :
    HaltsIn O I input n fun m => choice (es.map (f m)) := by
  induction es with
  | nil => exact fun _ _ _ => .pure _
  | cons first rest ih =>
    have hfirst := hhalts first List.mem_cons_self
    cases rest with
    | nil => exact hfirst
    | cons second rest =>
      intro s hs hroom
      refine (hfirst s hs hroom).bind (fun m => hf m first s hs) fun v t ⟨ht, hleft⟩ =>
        .ite (fun hv => ?_) fun _ => .pure _
      have hrest := ih fun e he => hhalts e (List.mem_cons_of_mem _ he)
      exact hrest t ht (by rwa [hleft.of_failed hv])

omit hO in
/-- Items come to an end if each one that is found leads from place to place and leaves less, in
characters or in the number of items that are allowed. -/
theorem halts_items_at {again : Nat → List Value → Run S Slot} {M : List Value → Language}
    {J : Nat → Prop} {d : Nat → Nat → Nat}
    (hmatches : ∀ m values, Matches O I (again m values) (M values))
    (hhalts : ∀ values s, I s → J (O.pos s) → Halts (fun m => again m values) s)
    (hM : ∀ values p q, J p → M values p q → J q ∧ d (values.length + 1) q < d values.length p)
    {s : S} (hs : I s) {first : Slot} (hfirst : ¬first.isFailed = true → J (O.pos s)) :
    Halts (fun m => items m (again m) first) s := by
  refine halts_items (F := I.ended) (J := fun _ t => I t ∧ J (O.pos t))
    (d := fun values t => d values.length (O.pos t)) ?_ ?_ fun h => ⟨hs, hfirst h⟩
  · exact fun values t ⟨ht, hJ⟩ => hhalts values t ht hJ
  · intro values t ⟨ht, hJ⟩ m
    refine (hmatches m values t ht).mono fun v u ⟨hu, hleft⟩ hv => ?_
    obtain ⟨hJ', hless⟩ := hM values _ _ hJ (hleft.of_matched hv)
    refine ⟨⟨hu, hJ'⟩, ?_⟩
    rwa [List.length_append]

variable {x : Nat → Run S Slot} {M : Language} {marked' : Prop}

omit hO in
/-- Matches that consume something cannot be repeated forever. -/
theorem HaltsIn.repeated (hx : HaltsIn O I input n x) (hmatches : ∀ m, Matches O I (x m) L)
    (htakes : L.Takes input (Enough marked)) (hmarked : marked) {s : S} (hs : I s) {first : Slot}
    (hfirst : ¬first.isFailed = true → Room input n (O.pos s)) :
    Halts (fun m => items m (fun _ => x m) first) s := by
  refine halts_items_at (J := Room input n) (d := fun _ p => input.size - p)
    (fun m _ => hmatches m) (fun _ => hx) (fun _ p q hp hpq => ?_) hs hfirst
  obtain ⟨hroom, hless⟩ := hp.advance htakes hpq
  exact ⟨hroom.mono hp.2, hless hmarked⟩

omit hO in
theorem HaltsIn.zeroOrMore (hx : HaltsIn O I input n x) (hmatches : ∀ m, Matches O I (x m) L)
    (htakes : L.Takes input (Enough marked)) (hmarked : marked) :
    HaltsIn O I input n fun m => zeroOrMore m (x m) := by
  intro s hs hroom
  refine (hx s hs hroom).bind (fun m => hmatches m s hs) fun v t ⟨ht, hleft⟩ => ?_
  refine (hx.repeated hmatches htakes hmarked ht fun hv => ?_).bind_any fun _ _ => .pure _
  exact (hroom.advance htakes (hleft.of_matched hv)).1.mono hroom.2

omit hO in
theorem HaltsIn.oneOrMore (hx : HaltsIn O I input n x) (hmatches : ∀ m, Matches O I (x m) L)
    (htakes : L.Takes input (Enough marked)) (hmarked : marked) :
    HaltsIn O I input n fun m => oneOrMore O m (x m) := by
  intro s hs hroom
  refine (hx s hs hroom).bind (fun m => hmatches m s hs) fun v t ⟨ht, hleft⟩ =>
    .ite (fun _ => halts_discard) fun _ => ?_
  refine (hx.repeated hmatches htakes hmarked ht fun hv => ?_).bind_any fun _ _ => .pure _
  exact (hroom.advance htakes (hleft.of_matched hv)).1.mono hroom.2

omit hO in
theorem HaltsIn.delimited {delimiter : Nat → Run S Slot} (hd : HaltsIn O I input n delimiter)
    (hx : HaltsIn O I input n x) (hmatches : ∀ m, Matches O I (delimiter m) M)
    (htakes : M.Takes input (Enough marked)) :
    HaltsIn O I input n fun m => delimited O (delimiter m) (x m) := by
  intro s hs hroom
  refine .here_bind ((hd s hs hroom).bind (fun m => hmatches m s hs) fun v t ⟨ht, hleft⟩ =>
    .ite (fun _ => .pure _) fun hv => ?_)
  have hroom' := (hroom.advance htakes (hleft.of_matched hv)).1.mono hroom.2
  exact (hx t ht hroom').bind_any fun _ _ => .ite (fun _ => halts_retreat _) fun _ => .pure _

/-- A range halts if further items consume something or there may only be so many of them. They are
begun behind the first item. -/
theorem HaltsIn.range {further : Nat → Run S Slot} (hx : HaltsIn O I input n x)
    (hfurther : ∀ n' ≤ n, (marked → n' < n) → HaltsIn O I input n' further)
    (hmatches : ∀ m, Matches O I (x m) L) (hmatches' : ∀ m, Matches O I (further m) M)
    (htakes : L.Takes input (Enough marked)) (htakes' : M.Takes input (Enough marked'))
    (min : UInt32) {max : Option UInt32} (hmax : max = none → marked') :
    HaltsIn O I input n fun m => range O m min max (x m) (further m) := by
  intro s hs hroom
  refine .here_bind ((hx s hs hroom).bind (fun m => hmatches m s hs) fun v t ⟨ht, hleft⟩ => ?_)
  refine Halts.bind_any ?_ fun _ _ => .ite (fun _ => halts_retreat _) fun _ => .pure _
  let J (p : Nat) : Prop := Room input n p ∧ (marked → input.size - p < n)
  have hafter {p q : Nat} (hp : J p) (hpq : M p q) :
      J q ∧ (marked' → input.size - q < input.size - p) := by
    obtain ⟨hroom', hless⟩ := hp.1.advance htakes' hpq
    exact ⟨⟨hroom'.mono hp.1.2, fun h => Nat.lt_of_le_of_lt hroom'.2 (hp.2 h)⟩, hless⟩
  have hhalts {u : S} (hu : I u) (hJ : J (O.pos u)) : Halts further u :=
    hfurther _ hJ.1.2 hJ.2 u hu hJ.1.self
  have hfirst (hv : ¬v.isFailed = true) : J (O.pos t) := by
    obtain ⟨hroom', hless⟩ := hroom.advance htakes (hleft.of_matched hv)
    exact ⟨hroom'.mono hroom.2, fun h => Nat.lt_of_lt_of_le (hless h) hroom.2⟩
  have hbounded (m : Nat) (values : List Value) :=
    (hmatches' m).bounded hO max values
  cases max with
  | none =>
    refine halts_items_at (J := J) (d := fun _ p => input.size - p) hbounded
      (fun _ u hu hJ => hhalts hu hJ) (fun values p q hp hpq => ?_) ht hfirst
    obtain ⟨hq, hless⟩ := hafter hp hpq.2
    exact ⟨hq, hless (hmax rfl)⟩
  | some max =>
    refine halts_items_at (J := J) (d := fun count _ => max.toNat - count) hbounded
      (fun values u hu hJ => .ite (fun _ => halts_discard) fun _ => hhalts hu hJ)
      (fun values p q hp hpq => ?_) ht hfirst
    obtain ⟨hq, -⟩ := hafter hp hpq.2
    have hallowed := hpq.1 max rfl
    exact ⟨hq, by omega⟩

end

/-! ## Expressions -/

section

variable {O : Ops S} {I : Invariant S} {input : Input} {g : Grammar}
  {invoke : Nat → Nat → Run S Slot} {n : Nat} {low : String → Prop}

/-- Rules halt further on, and those that are low halt here. -/
structure Settled (O : Ops S) (I : Invariant S) (input : Input) (g : Grammar)
    (invoke : Nat → Nat → Run S Slot) (n : Nat) (low : String → Prop) : Prop where
  here : ∀ name index, g.ruleIndex? name = some index → low name →
    HaltsIn O I input n fun m => invoke m index
  ahead : ∀ index, ∀ n' < n, HaltsIn O I input n' fun m => invoke m index

/-- Behind something that consumes any rule halts. -/
theorem Settled.behind (h : Settled O I input g invoke n low) {n' : Nat} (hle : n' ≤ n)
    {marked : Prop} (hlt : marked → n' < n) :
    Settled O I input g invoke n' fun name => marked ∨ low name := by
  refine ⟨?_, fun index n'' hn'' => h.ahead index n'' (Nat.lt_of_lt_of_le hn'' hle)⟩
  rintro name index hindex (hmarked | hlow)
  · exact h.ahead index n' (hlt hmarked)
  · exact (h.here name index hindex hlow).mono hle

variable {eats : NodeId → Prop} {node : NodeId → Language}

theorem HaltsIn.elements {ev : Nat → NodeId → Env → Run S Slot}
    {guarded : (String → Prop) → NodeId → Prop}
    (hmatches : ∀ m e env, Matches O I (ev m e env) (node e))
    (htakes : ∀ e, (node e).Takes input (Enough (eats e)))
    (hguarded : ∀ n low e env, guarded low e → Settled O I input g invoke n low →
      HaltsIn O I input n fun m => ev m e env)
    (start : Nat) (action? : Option String) {es : List NodeId} (hled : Led eats guarded low es)
    (hsettled : Settled O I input g invoke n low) (values : List Slot) (env : Env) :
    HaltsIn O I input n fun m =>
      elements O (ev m) g start (sequenceEnd O action? start) es values env := by
  induction es generalizing n low values env with
  | nil =>
    intro s _ _
    cases action? with
    | none => exact .pure _
    | some source => exact halts_act _ _ _
  | cons e es ih =>
    intro s hs hroom
    refine (hguarded n low e env hled.1 hsettled s hs hroom).bind (fun m => hmatches m e env s hs)
      fun v t ⟨ht, hleft⟩ => .ite (fun _ => halts_retreat _) fun hv => ?_
    obtain ⟨hroom', hless⟩ := hroom.advance (htakes e) (hleft.of_matched hv)
    have hbehind : eats e → input.size - O.pos t < n := fun h =>
      Nat.lt_of_lt_of_le (hless h) hroom.2
    exact ih hled.2 (hsettled.behind (hroom'.mono hroom.2).2 hbehind) _ _ t ht hroom'.self

variable {L : Nat → Language}

/-- A guarded expression halts. -/
theorem HaltsIn.eval (hO : O.Keeps I) (hI : I.Spreads input)
    (hinvoke : ∀ m index, Matches O I (invoke m index) (L index))
    (htakes : ∀ depth id, (ofNode input g L depth id).Takes input (Enough (eats id)))
    {depth : Nat} {id : NodeId} (hguarded : g.Guarded eats depth low id)
    (hsettled : Settled O I input g invoke n low) (env : Env) (action? : Option String) :
    HaltsIn O I input n fun m => Peg.eval O input g (invoke m) m depth id env action? := by
  induction depth generalizing id n low env action? with
  | zero => exact hguarded.elim
  | succ depth ih =>
    have hmatches (id : NodeId) (env : Env) (action? : Option String) (m : Nat) :
        Matches O I (Peg.eval O input g (invoke m) m depth id env action?)
          (ofNode input g L depth id) :=
      eval_matches hO hI (fun index _ => hinvoke m index) m depth id env action?
    obtain ⟨-, hguarded⟩ := hguarded
    simp only [Peg.eval, Peg.level]
    cases hshape : g.shape id <;> rw [hshape] at hguarded
    case named name e =>
      have he := ih (hguarded e (List.mem_singleton_self e)) hsettled env none
      exact fun s hs hroom => (he.hush hO hs hroom).named name
    case choice es =>
      exact HaltsIn.choice (fun m e => hmatches e env none m) fun e he =>
        ih (hguarded e he) hsettled env none
    case action e source =>
      have he := ih (hguarded e (List.mem_singleton_self e)) hsettled env (some source)
      dsimp only
      split
      · exact he
      · exact fun s hs hroom => (he s hs hroom).actionAround g e source env
    case sequence es =>
      intro s hs hroom
      refine .here_bind (HaltsIn.elements (fun m e env => hmatches e env none m) (htakes depth)
        (fun n low e env h hsettled => ih h hsettled env none) _ action? hguarded hsettled [] env
        s hs hroom)
    case labeled label e => exact ih (hguarded e (List.mem_singleton_self e)) hsettled env none
    case text e =>
      have he := ih (hguarded e (List.mem_singleton_self e)) hsettled env none
      exact fun s hs hroom => (he s hs hroom).text input
    case simpleAnd e =>
      have he := ih (hguarded e (List.mem_singleton_self e)) hsettled env none
      exact fun s hs hroom => (he.hush hO hs hroom).predicate false
    case simpleNot e =>
      have he := ih (hguarded e (List.mem_singleton_self e)) hsettled env none
      exact fun s hs hroom => (he.hush hO hs hroom).predicate true
    case optional e =>
      have he := ih (hguarded e (List.mem_singleton_self e)) hsettled env none
      exact fun s hs hroom => (he s hs hroom).optional
    case zeroOrMore e =>
      exact (ih hguarded.2 hsettled env none).zeroOrMore (hmatches e env none) (htakes depth e)
        hguarded.1
    case oneOrMore e =>
      exact (ih hguarded.2 hsettled env none).oneOrMore (hmatches e env none) (htakes depth e)
        hguarded.1
    case range min max e delimiter =>
      obtain ⟨⟨hitem, hdelimiter⟩, hmax⟩ := hguarded
      have he := ih hitem hsettled [] none
      dsimp only
      split
      · exact fun _ _ _ => .pure _
      · cases delimiter with
        | none =>
          refine HaltsIn.range hO he (fun n' hle _ => he.mono hle) (hmatches e [] none)
            (hmatches e [] none) (htakes depth e) (htakes depth e) min fun hnone => ?_
          rcases hmax hnone with heat | ⟨d, hd, -⟩
          · exact heat
          · cases hd
        | some d =>
          refine HaltsIn.range hO he (fun n' hle hlt => ?_) (hmatches e [] none)
            (fun m => (hmatches d [] none m).delimited hO (hmatches e [] none m)) (htakes depth e)
            ((htakes depth d).both (htakes depth e)) min fun hnone => ?_
          · exact (ih hdelimiter.1 (hsettled.behind hle hlt) [] none).delimited (he.mono hle)
              (hmatches d [] none) (htakes depth d)
          · rcases hmax hnone with heat | ⟨d, ⟨⟩, heat⟩
            · exact .inr heat
            · exact .inl heat
    case ruleRef name =>
      dsimp only
      cases hindex : g.ruleIndex? name with
      | none => exact fun _ _ _ => .pure _
      | some index => exact hsettled.here name index hindex hguarded
    case semanticAnd source => exact fun _ _ _ => halts_semantic source false env
    case semanticNot source => exact fun _ _ _ => halts_semantic source true env
    case code source => exact fun _ _ _ => halts_code source env
    all_goals exact fun _ _ _ => halts_terminal input _

end

end Peg

end PegMachine
