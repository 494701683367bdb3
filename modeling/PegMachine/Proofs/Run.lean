import Mathlib.Algebra.Group.Nat.Defs
import Mathlib.Order.Filter.AtTopBot.Basic
import PegMachine.Run.Interpreter

/-!
# Runs, opened up

What the operations of the run monad do at a state, and how a run of a composite splits into runs
of its parts. Fuel only ever bounds a run from above, so what is said about fuel here is said of
all sufficiently large amounts of it.
-/

namespace PegMachine

open Filter

theorem bind_eq_ok {ε α β : Type} {x : Except ε α} {f : α → Except ε β} {b : β} :
    (x >>= f) = .ok b ↔ ∃ a, x = .ok a ∧ f a = .ok b := by
  cases x with
  | error e => exact ⟨nofun, nofun⟩
  | ok a => exact ⟨fun h => ⟨a, rfl, h⟩, fun ⟨_, ha, h⟩ => by cases ha; exact h⟩

/-- What holds of all large amounts of fuel, one unit of it being spent at once. -/
theorem eventually_of_succ {p : Nat → Prop} (h : ∀ᶠ n in atTop, p (n + 1)) :
    ∀ᶠ n in atTop, p n := by
  rw [← map_add_atTop_eq_nat 1]
  exact h

namespace Run

variable {S α β : Type}

@[simp] theorem pure_apply (a : α) (s : S) : (pure a : Run S α) s = some (.ok a, s) := rfl

@[simp] theorem forever_apply (s : S) : (forever : Run S α) s = none := rfl

/-- A run goes on with the result of its first part. -/
theorem bind_apply (x : Run S α) (f : α → Run S β) (s : S) :
    (x >>= f) s =
      match x s with
      | some (.ok a, t) => f a t
      | some (.error e, t) => some (.error e, t)
      | none => none := by
  change (Option.bind (x s) fun r => ExceptT.bindCont f r.1 r.2) = _
  rcases x s with - | ⟨e | a, t⟩ <;> rfl

theorem bind_ok {x : Run S α} {f : α → Run S β} {s t : S} {a : α} (h : x s = some (.ok a, t)) :
    (x >>= f) s = f a t := by
  rw [bind_apply, h]

theorem bind_error {x : Run S α} {f : α → Run S β} {s t : S} {e : ParseFailure}
    (h : x s = some (.error e, t)) : (x >>= f) s = some (.error e, t) := by
  rw [bind_apply, h]

/-- A run that has an outcome got it from its second part, unless its first part ended the
parse. -/
theorem bind_eq_some {x : Run S α} {f : α → Run S β} {s u : S} {o : Outcome β} :
    (x >>= f) s = some (o, u) ↔
      (∃ a t, x s = some (.ok a, t) ∧ f a t = some (o, u)) ∨
        ∃ e, x s = some (.error e, u) ∧ o = .error e := by
  rw [bind_apply]
  rcases x s with - | ⟨e | a, t⟩
  · simp
  · constructor
    · intro h
      obtain ⟨rfl, rfl⟩ : .error e = o ∧ t = u := by simpa using h
      exact .inr ⟨e, rfl, rfl⟩
    · rintro (⟨a, t, h, -⟩ | ⟨e', h, rfl⟩)
      · cases h
      · cases h; rfl
  · constructor
    · intro h
      exact .inl ⟨a, t, rfl, h⟩
    · rintro (⟨b, t', h, hf⟩ | ⟨e', h, -⟩)
      · cases h; exact hf
      · cases h

/-- A run that gave a value got it from its second part. -/
theorem bind_eq_some_ok {x : Run S α} {f : α → Run S β} {s u : S} {b : β} :
    (x >>= f) s = some (.ok b, u) ↔
      ∃ a t, x s = some (.ok a, t) ∧ f a t = some (.ok b, u) := by
  rw [bind_eq_some, or_iff_left]
  rintro ⟨e, -, he⟩
  cases he

theorem map_eq_bind (f : α → β) (x : Run S α) : f <$> x = x >>= fun a => pure (f a) :=
  (bind_pure_comp f x).symm

theorem map_apply (f : α → β) (x : Run S α) (s : S) :
    (f <$> x) s =
      match x s with
      | some (.ok a, t) => some (.ok (f a), t)
      | some (.error e, t) => some (.error e, t)
      | none => none := by
  rw [map_eq_bind, bind_apply]
  rcases x s with - | ⟨e | a, t⟩ <;> rfl

/-! ## Repetition -/

theorem repeatWhile_of_not {test : α → S → Bool} {step : α → Run S α} {rounds : Nat} {a : α}
    {s : S} (h : test a s = false) : repeatWhile test step (rounds + 1) a s = some (.ok a, s) := by
  simp [repeatWhile, h]

/-- A repetition whose test holds goes on after one step. -/
theorem repeatWhile_of_test {test : α → S → Bool} {step : α → Run S α} {rounds : Nat} {a : α}
    {s : S} (h : test a s = true) :
    repeatWhile test step (rounds + 1) a s = (step a >>= repeatWhile test step rounds) s := by
  rw [bind_apply]
  refine (if_pos h).trans ?_
  rcases step a s with - | ⟨e | b, t⟩
  · rfl
  · rfl
  · rfl

/-- A repetition can be followed through a map between what is repeated. -/
theorem repeatWhile_map {test : α → S → Bool} {step : α → Run S α} {test' : β → S → Bool}
    {step' : β → Run S β} (f : α → β) (htest : ∀ a s, test' (f a) s = test a s)
    (hstep : ∀ a s, test a s = true → step' (f a) s = (f <$> step a) s) (rounds : Nat) (a : α) :
    repeatWhile test' step' rounds (f a) = f <$> repeatWhile test step rounds a := by
  induction rounds generalizing a with
  | zero => rfl
  | succ rounds ih =>
    funext s
    cases hgo : test a s with
    | false =>
      rw [repeatWhile_of_not ((htest a s).trans hgo), map_apply, repeatWhile_of_not hgo]
    | true =>
      rw [repeatWhile_of_test ((htest a s).trans hgo), map_apply, repeatWhile_of_test hgo,
        bind_apply, bind_apply, hstep a s hgo, map_apply]
      rcases step a s with - | ⟨e | b, t⟩
      · rfl
      · rfl
      · simp only [ih b, map_apply]

end Run

/-! ## Operands -/

/-- An instruction without blocks reads no more words than it has. -/
theorem Interpreter.plain_congr (E : Setting σ) {opcode : Opcode} {a b : Nat → Nat}
    (h : ∀ i < opcode.width a, a (i + 1) = b (i + 1)) (stack : List Slot) (s : State σ) :
    Interpreter.plain E opcode a stack s = Interpreter.plain E opcode b stack s := by
  cases opcode with
  | call =>
    have hwidth : Opcode.call.width a = 3 + a 3 := by simp [Opcode.width, Opcode.operands]
    rw [hwidth] at h
    have h1 : a 1 = b 1 := h 0 (by omega)
    have h2 : a 2 = b 2 := h 1 (by omega)
    have h3 : a 3 = b 3 := h 2 (by omega)
    have hargs : ((List.range (a 3)).map fun i => (stack.getD (a (4 + i)) .failed).toValue) =
        (List.range (b 3)).map fun i => (stack.getD (b (4 + i)) .failed).toValue := by
      rw [← h3]
      refine List.map_congr_left fun i hi => ?_
      have hlt : i < a 3 := List.mem_range.mp hi
      rw [show 4 + i = (3 + i) + 1 by omega, h (3 + i) (by omega)]
    simp only [Interpreter.plain, h1, h2, hargs]
  | push | popN | wrap | acceptN | acceptString | fail | loadSavedPos | acceptRegexp =>
    have h1 : a 1 = b 1 := h 0 (by simp [Opcode.width, Opcode.operands])
    simp only [Interpreter.plain, h1]
  | _ => rfl

/-- A condition reads no more words than come before the lengths of its blocks. -/
theorem Interpreter.holds_congr (E : Setting σ) {opcode : Opcode} {n : Nat} {a b : Nat → Nat}
    (hn : opcode.operands = n + 2) (h : ∀ i < n, a (i + 1) = b (i + 1)) (stack : List Slot)
    (s : State σ) :
    Interpreter.holds E opcode a stack s = Interpreter.holds E opcode b stack s := by
  cases opcode with
  | ifArrlenMin | ifArrlenMax | matchString | matchStringIc | matchRegexp =>
    have h1 : a 1 = b 1 := h 0 (by simp only [Opcode.operands] at hn; omega)
    simp only [Interpreter.holds, h1]
  | _ => rfl

/-! ## Invocations -/

namespace State

variable {σ : Type} {E : Setting σ} {index : Nat} {body : Run (State σ) Slot} {s : State σ}
  {r : Outcome Slot × State σ}

/-- The outcome of an invocation was recalled, or it is that of the body. -/
theorem rule_eq_some :
    rule E index body s = some r ↔
      (∃ nextPos result, (s.entered E index).memoized? E index = some (nextPos, result) ∧
        r = (.ok result, (s.entered E index).recalled E index s.pos nextPos result)) ∨
      ((s.entered E index).memoized? E index = none ∧
        ∃ o t, body { s.entered E index with currentRule := some index } = some (o, t) ∧
          r = (o, left E s index o t)) := by
  rw [rule]
  cases hmemo : (s.entered E index).memoized? E index with
  | some hit =>
    obtain ⟨nextPos, result⟩ := hit
    simp [eq_comm]
  | none =>
    dsimp only
    cases hbody : body { s.entered E index with currentRule := some index } with
    | none => simp
    | some out =>
      obtain ⟨o, t⟩ := out
      simp [eq_comm]

/-- An invocation has the outcome that it has with another body, if the outcomes of that body are
outcomes of its own. -/
theorem rule_mono {body' : Run (State σ) Slot} (h : ∀ s r, body s = some r → body' s = some r)
    (hrule : rule E index body s = some r) : rule E index body' s = some r := by
  rw [rule_eq_some] at hrule ⊢
  rcases hrule with hhit | ⟨hmiss, o, t, hbody, hr⟩
  · exact .inl hhit
  · exact .inr ⟨hmiss, o, t, h _ _ hbody, hr⟩

/-- The same for bodies that take fuel. -/
theorem eventually_rule {bodies : Nat → Run (State σ) Slot}
    (h : ∀ s r, body s = some r → ∀ᶠ m in atTop, bodies m s = some r)
    (hrule : rule E index body s = some r) :
    ∀ᶠ m in atTop, rule E index (bodies m) s = some r := by
  simp only [rule_eq_some] at hrule ⊢
  rcases hrule with hhit | ⟨hmiss, o, t, hbody, hr⟩
  · exact .of_forall fun m => .inl hhit
  · filter_upwards [h _ _ hbody] with m hm
    exact .inr ⟨hmiss, o, t, hm, hr⟩

end State

end PegMachine
