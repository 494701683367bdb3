import PegMachine.Proofs.Unrolling

/-!
# Routines step by step

Routines are run statement by statement with their blocks as a whole. Here the same run goes in
single steps: a condition puts one of its blocks in front of what follows, a loop its body in front
of itself. `Occurs` says which statements come up in the course of an invocation, with which slots
and in which state, also if the invocation never ends; every run over a whole block leads to what
occurs behind the block.
-/

namespace PegMachine

variable {σ : Type}

namespace Routine

/-- What one statement leads to. -/
inductive Step (σ : Type) where
  /-- Other statements. -/
  | next (stmts : List Stmt) (slots : Array Slot) (s : State σ)
  /-- The invocation of a rule, whose result goes into a slot. -/
  | invoke (rule target : Nat) (rest : List Stmt) (slots : Array Slot) (s : State σ)
  /-- The end of the parse. -/
  | abort (e : ParseFailure) (s : State σ)
  /-- The end of the routine. -/
  | done (slots : Array Slot) (s : State σ)

/-- Run a statement, or enter one of its blocks. -/
def step (E : Setting σ) : List Stmt → Array Slot → State σ → Step σ
  | [], slots, s => .done slots s
  | .branch cond held otherwise :: rest, slots, s =>
    .next ((if cond.holds E slots s then held else otherwise) ++ rest) slots s
  | .loop cond body :: rest, slots, s =>
    .next (if cond.holds E slots s then body ++ .loop cond body :: rest else rest) slots s
  | .assign target (.rule callee) :: rest, slots, s => .invoke callee target rest slots s
  | stmt :: rest, slots, s =>
    match exec E (fun _ => .forever) 0 stmt slots s with
    | some (.ok slots, s) => .next rest slots s
    | some (.error e, s) => .abort e s
    | none => .done slots s

/-- A statement that has no blocks and invokes no rule. -/
def Stmt.IsPlain : Stmt → Prop
  | .branch .. | .loop .. | .assign _ (.rule _) => False
  | _ => True

/-- Statements come up, with some slots and in some state, in the course of the invocation of a
rule. The invocation need not end. -/
inductive Occurs (E : Setting σ) (rs : Array Routine) :
    Nat → State σ → List Stmt → Array Slot → State σ → Prop
  /-- The rule is entered unless its outcome is recalled. -/
  | enter {index : Nat} {s : State σ} {r : Routine}
      (fresh : (s.entered E index).memoized? E index = none) (routine : rs[index]? = some r) :
      Occurs E rs index s r.body (Array.replicate r.slots .failed)
        { s.entered E index with currentRule := some index }
  /-- A statement is run or one of its blocks is entered. -/
  | next {index : Nat} {s t u : State σ} {stmts stmts' : List Stmt} {slots slots' : Array Slot}
      (occurs : Occurs E rs index s stmts slots t)
      (step : step E stmts slots t = .next stmts' slots' u) :
      Occurs E rs index s stmts' slots' u
  /-- A rule is invoked, in the course of which other statements come up. -/
  | inside {index callee target : Nat} {s t u v : State σ} {stmts rest inner : List Stmt}
      {slots slots' slots_inner : Array Slot} (occurs : Occurs E rs index s stmts slots t)
      (step : step E stmts slots t = .invoke callee target rest slots' u)
      (within : Occurs E rs callee u inner slots_inner v) : Occurs E rs index s inner slots_inner v
  /-- A routine goes on with the result of the rule that it invoked. -/
  | back {index callee target n : Nat} {s t u w : State σ} {stmts rest : List Stmt}
      {slots slots' : Array Slot} {v : Slot} (occurs : Occurs E rs index s stmts slots t)
      (step : step E stmts slots t = .invoke callee target rest slots' u)
      (returns : runRule E rs n callee u = some (.ok v, w)) :
      Occurs E rs index s rest (slots'.setIfInBounds target v) w

section

variable {E : Setting σ} {stmt : Stmt} {rest : List Stmt} {slots : Array Slot} {s : State σ}

/-- A plain statement runs as it does in a block. -/
theorem step_plain (h : stmt.IsPlain) (invoke : Nat → Run (State σ) Slot) (rounds : Nat) :
    step E (stmt :: rest) slots s =
      match exec E invoke rounds stmt slots s with
      | some (.ok slots, s) => .next rest slots s
      | some (.error e, s) => .abort e s
      | none => .done slots s := by
  cases stmt with
  | branch | loop => cases h
  | assign target value =>
    cases value with
    | rule => cases h
    | _ => simp only [step, exec]
  | _ => simp only [step, exec]

end

/-! ## Runs over blocks -/

section

variable {E : Setting σ} {rs : Array Routine} {index n rounds : Nat} {s t u : State σ}
  {slots slots' : Array Slot}

theorem Occurs.behind_plain {stmt : Stmt} {rest : List Stmt}
    (h : Occurs E rs index s (stmt :: rest) slots t)
    (hrun : exec E (runRule E rs n) rounds stmt slots t = some (.ok slots', u))
    (hplain : stmt.IsPlain) :
    Occurs E rs index s rest slots' u :=
  .next h (by rw [step_plain hplain (runRule E rs n) rounds, hrun])

/-- If what runs over a body leads to what occurs behind it, what runs over the loop does. -/
theorem Occurs.behind_loop {cond : Cond} {body rest : List Stmt}
    {step : Array Slot → Run (State σ) (Array Slot)}
    (hbody : ∀ {slots slots' t u}, Occurs E rs index s (body ++ .loop cond body :: rest) slots t →
      step slots t = some (.ok slots', u) → Occurs E rs index s (.loop cond body :: rest) slots' u)
    (h : Occurs E rs index s (.loop cond body :: rest) slots t)
    (hrun : Run.repeatWhile (cond.holds E) step rounds slots t = some (.ok slots', u)) :
    Occurs E rs index s rest slots' u := by
  induction rounds generalizing slots t with
  | zero => cases hrun
  | succ rounds ih =>
    have hstep := Occurs.next h rfl
    cases hholds : cond.holds E slots t with
    | false =>
      rw [Run.repeatWhile_of_not hholds] at hrun
      cases hrun
      rwa [hholds] at hstep
    | true =>
      rw [Run.repeatWhile_of_test hholds] at hrun
      rw [hholds] at hstep
      obtain ⟨slots₁, t₁, hfirst, hrest⟩ := Run.bind_eq_some_ok.mp hrun
      exact ih (hbody hstep hfirst) hrest

mutual

/-- The run of a statement leads to what occurs behind it. -/
theorem Occurs.behind {rest : List Stmt} : ∀ (stmt : Stmt) {slots slots' : Array Slot}
    {t u : State σ}, Occurs E rs index s (stmt :: rest) slots t →
      exec E (runRule E rs n) rounds stmt slots t = some (.ok slots', u) →
      Occurs E rs index s rest slots' u
  | .branch cond held otherwise, slots, slots', t, u, h, hrun => by
    have hstep := Occurs.next h rfl
    rw [exec] at hrun
    dsimp only at hrun
    split at hrun
    · next hholds =>
      rw [if_pos hholds] at hstep
      exact Occurs.behind_all held hstep hrun
    · next hholds =>
      rw [if_neg hholds] at hstep
      exact Occurs.behind_all otherwise hstep hrun
  | .loop cond body, slots, slots', t, u, h, hrun => by
    rw [exec] at hrun
    exact Occurs.behind_loop (fun h hrun => Occurs.behind_all body h hrun) h hrun
  | .assign target value, slots, slots', t, u, h, hrun => by
    by_cases hrule : ∃ callee, value = .rule callee
    · obtain ⟨callee, rfl⟩ := hrule
      rw [exec] at hrun
      obtain ⟨v, w, hreturns, hpure⟩ := Run.bind_eq_some_ok.mp hrun
      cases hpure
      exact .back h rfl hreturns
    · exact h.behind_plain hrun (by cases value <;> simp_all [Stmt.IsPlain])
  | .restorePos _, _, _, _, _, h, hrun => h.behind_plain hrun trivial
  | .loadSavedPos _, _, _, _, _, h, hrun => h.behind_plain hrun trivial
  | .updateSavedPos, _, _, _, _, h, hrun => h.behind_plain hrun trivial
  | .silentOn, _, _, _, _, h, hrun => h.behind_plain hrun trivial
  | .silentOff, _, _, _, _, h, hrun => h.behind_plain hrun trivial
  | .silentReset, _, _, _, _, h, hrun => h.behind_plain hrun trivial
  | .append _ _, _, _, _, _, h, hrun => h.behind_plain hrun trivial

/-- The run of a block leads to what occurs behind it. -/
theorem Occurs.behind_all {rest : List Stmt} : ∀ (stmts : List Stmt) {slots slots' : Array Slot}
    {t u : State σ}, Occurs E rs index s (stmts ++ rest) slots t →
      execAll E (runRule E rs n) rounds stmts slots t = some (.ok slots', u) →
      Occurs E rs index s rest slots' u
  | [], slots, slots', t, u, h, hrun => by
    cases hrun
    exact h
  | stmt :: stmts, slots, slots', t, u, h, hrun => by
    rw [execAll] at hrun
    obtain ⟨slots₁, t₁, hfirst, hrest⟩ := Run.bind_eq_some_ok.mp hrun
    exact Occurs.behind_all stmts (Occurs.behind stmt h hfirst) hrest

end

end

end Routine

end PegMachine
