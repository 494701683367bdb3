import PegMachine.Parser
import PegMachine.Proofs.Layout
import PegMachine.Proofs.Positions
import PegMachine.Proofs.Unrolling

/-!
# Instrumentation is inert

A parse may be traced and counted for somebody to look at. Both only write: no condition and no
result reads a counter or an event. What tracing does disturb is the tracker, which is asked for
more positions in another order; but a tracker finds a position wherever it was before. So two
parses that differ in their instruments go through the same states, up to what the instruments hold.

This is said of any program, not only of generated code, and the two parses need the same fuel.
-/

namespace PegMachine

variable {σ α β : Type}

/-- The program with tracing and statistics switched on or off. -/
def Program.instrumented (p : Program) (trace statistics : Bool) : Program :=
  { p with trace, statistics }

/-- The setting whose program is traced and counted, or not. -/
def Setting.instrumented (E : Setting σ) (trace statistics : Bool) : Setting σ where
  program := E.program.instrumented trace statistics
  patterns := E.patterns
  patterns_eq := show E.patterns = (E.program.instrumented trace statistics).patterns from
    E.patterns_eq
  input := E.input
  handler := E.handler

/-- States of parses of one input that differ only in what the instruments hold, where the
trackers have both read the input. -/
inductive State.SameParse (input : Input) (s : State σ) : State σ → Prop where
  | intro (tracker : Tracker) (statistics : Option Statistics) (events : List TraceEvent)
    (reads : s.tracker.Reads input) (reads' : tracker.Reads input) :
    SameParse input s { s with tracker, statistics, events }

/-- The same result, in states that differ only in what the instruments hold. -/
def State.SameResult (input : Input) (r r' : α × State σ) : Prop :=
  r.1 = r'.1 ∧ State.SameParse input r.2 r'.2

/-- Runs that come to the same from states that differ only in what the instruments hold. -/
def Run.Same (input : Input) (x y : Run (State σ) α) : Prop :=
  ∀ s s', State.SameParse input s s' →
    Option.Rel (State.SameResult input) (x s) (y s')

namespace Run.Same

variable {input : Input} {x y : Run (State σ) α}

theorem forever : Run.Same input (Run.forever : Run (State σ) α) Run.forever :=
  fun _ _ _ => .none

theorem pure (a : α) : Run.Same (σ := σ) input (Pure.pure a) (Pure.pure a) :=
  fun _ _ h => .some ⟨rfl, h⟩

theorem bind {f g : α → Run (State σ) β} (hx : Run.Same input x y)
    (hf : ∀ a, Run.Same input (f a) (g a)) : Run.Same input (x >>= f) (y >>= g) := by
  intro s s' h
  rw [Run.bind_apply, Run.bind_apply]
  have hparts := hx s s' h
  generalize x s = r at hparts ⊢
  generalize y s' = r' at hparts ⊢
  cases hparts with
  | none => exact .none
  | @some r r' hr =>
    obtain ⟨o, t⟩ := r
    obtain ⟨o', t'⟩ := r'
    obtain ⟨rfl, ht⟩ : o = o' ∧ _ := hr
    cases o with
    | error e => exact .some ⟨rfl, ht⟩
    | ok a => exact hf a t t' ht

theorem repeatWhile {test test' : α → State σ → Bool} {step step' : α → Run (State σ) α}
    (htest : ∀ a {s s'}, State.SameParse input s s' → test a s = test' a s')
    (hstep : ∀ a, Run.Same input (step a) (step' a)) (rounds : Nat) (a : α) :
    Run.Same input (Run.repeatWhile test step rounds a) (Run.repeatWhile test' step' rounds a) := by
  induction rounds generalizing a with
  | zero => exact forever
  | succ rounds ih =>
    intro s s' h
    cases hgo : test a s with
    | false =>
      rw [repeatWhile_of_not hgo, repeatWhile_of_not (htest a h ▸ hgo)]
      exact .some ⟨rfl, h⟩
    | true =>
      rw [repeatWhile_of_test hgo, repeatWhile_of_test (htest a h ▸ hgo)]
      exact bind (hstep a) ih s s' h

end Run.Same

/-! ## Operations -/

namespace State.SameParse

variable {E : Setting σ} {s s' : State σ}

section

variable {input : Input}

theorem count (h : SameParse input s s') (rule : Nat) (f g : RuleCounters → RuleCounters) :
    SameParse input (s.count rule f) (s'.count rule g) := by
  cases h with
  | intro tracker statistics events reads reads' => exact .intro tracker _ events reads reads'

theorem countCurrent (h : SameParse input s s') (f : RuleCounters → RuleCounters) :
    SameParse input (s.countCurrent f) (s'.countCurrent f) := by
  cases h with
  | intro tracker statistics events reads reads' =>
    simp only [State.countCurrent]
    split
    · exact .intro tracker _ events reads reads'
    · exact .intro tracker statistics events reads reads'

theorem report (h : SameParse input s s') (e : Expectation) :
    SameParse input (s.report e) (s'.report e) := by
  cases h with
  | intro tracker statistics events reads reads' =>
    simp only [State.report]
    split
    · exact .intro tracker statistics events reads reads'
    · split <;> exact .intro tracker statistics events reads reads'

theorem restorePos (h : SameParse input s s') (saved : Slot) :
    SameParse input (s.restorePos saved) (s'.restorePos saved) := by
  cases h with
  | intro tracker statistics events reads reads' =>
    simp only [State.restorePos]
    split
    · exact .intro tracker statistics events reads reads'
    · exact .intro tracker statistics events reads reads'

theorem loadSavedPos (h : SameParse input s s') (saved : Slot) :
    SameParse input (s.loadSavedPos saved) (s'.loadSavedPos saved) := by
  cases h with
  | intro tracker statistics events reads reads' =>
    simp only [State.loadSavedPos]
    split
    · exact .intro tracker statistics events reads reads'
    · exact .intro tracker statistics events reads reads'

theorem isSilent (h : SameParse input s s') : s'.isSilent = s.isSilent := by
  cases h
  rfl

theorem failFor (h : SameParse input s s') (e : Expectation) :
    SameParse input (s.failFor e) (s'.failFor e) := by
  have hcount := h.countCurrent (·.countFail s.isSilent)
  simp only [State.failFor, h.isSilent]
  split
  · exact hcount
  · exact hcount.report e

/-- A location is found wherever the tracker was before. -/
theorem locate (h : SameParse input s s') (start stop : Nat) :
    SameResult input (s.locate start stop) (s'.locate start stop) := by
  cases h with
  | intro tracker statistics events reads reads' =>
    obtain ⟨hlocation, hreads⟩ := reads.location start stop
    obtain ⟨hlocation', hreads'⟩ := reads'.location start stop
    exact ⟨hlocation.trans hlocation'.symm, .intro _ statistics events hreads hreads'⟩

end

variable {traced counted : Bool}

/-- Tracing writes to the instruments only, and asks for positions in the input. -/
theorem exists_trace (E : Setting σ) (s : State σ) (kind : TraceEvent.Kind)
    (rule start stop : Nat) (result : Option Slot) : ∃ tracker events,
      s.trace E kind rule start stop result = { s with tracker, events } ∧
        (s.tracker.Reads E.input → tracker.Reads E.input) := by
  unfold State.trace
  split
  · exact ⟨_, _, rfl, fun h => (h.location start stop).2⟩
  · exact ⟨s.tracker, s.events, rfl, id⟩

/-- An event may be emitted on one side and not on the other. -/
theorem trace (h : SameParse E.input s s') (kind kind' : TraceEvent.Kind)
    (rule start stop start' stop' : Nat) (result result' : Option Slot) :
    SameParse E.input (s.trace E kind rule start stop result)
      (s'.trace (E.instrumented traced counted) kind' rule start' stop' result') := by
  obtain ⟨tracker, events, htrace, hreads⟩ := exists_trace E s kind rule start stop result
  obtain ⟨tracker', events', htrace', hreads'⟩ :=
    exists_trace (E.instrumented traced counted) s' kind' rule start' stop' result'
  rw [htrace, htrace']
  cases h with
  | intro _ statistics _ reads reads' =>
    exact .intro tracker' statistics events' (hreads reads) (hreads' reads')

theorem perform (h : SameParse E.input s s') (index : Nat) (action : Program.Action)
    (args : List Value) :
    SameResult E.input (s.perform E index action args)
      (s'.perform (E.instrumented traced counted) index action args) := by
  cases h with
  | intro tracker statistics events reads reads' =>
    have hcontext : State.actionContext (E.instrumented traced counted)
        { s with tracker, statistics, events } = s.actionContext E := rfl
    have hhandler : (E.instrumented traced counted).handler = E.handler := rfl
    simp only [State.perform, hcontext, hhandler]
    rcases hrun : E.handler index action (s.actionContext E) args s.handlerState with
      ⟨answer, hs⟩
    have hplaced := (SameParse.intro (s := { s with handlerState := hs }) tracker statistics events
      reads reads').locate s.savedPos s.pos
    simp only [hrun]
    rcases answer with (- | description | message | -) | value
    · exact ⟨rfl, .intro tracker statistics events reads reads'⟩
    · exact ⟨by simp only [hplaced.1], hplaced.2⟩
    · exact ⟨by simp only [hplaced.1], hplaced.2⟩
    · exact ⟨rfl, .intro tracker statistics events reads reads'⟩
    · exact ⟨rfl, .intro tracker statistics events reads reads'⟩

variable (traced counted) in
theorem call (h : SameParse E.input s s') (index : Nat) (args : List Value) :
    SameResult E.input (s.call E index args)
      (s'.call (E.instrumented traced counted) index args) := by
  have hactions : (E.instrumented traced counted).program.actions = E.program.actions := rfl
  simp only [State.call, hactions]
  cases E.program.actions[index]? with
  | none => exact ⟨rfl, h⟩
  | some action => exact h.perform index action args

variable (traced counted) in
theorem fail (h : SameParse E.input s s') (c : Nat) :
    SameResult E.input (s.fail E c) (s'.fail (E.instrumented traced counted) c) := by
  have hexpectation : (E.instrumented traced counted).program.expectation? c =
    E.program.expectation? c := rfl
  simp only [State.fail, hexpectation]
  cases E.program.expectation? c with
  | none => exact ⟨rfl, h.isSilent ▸ h.countCurrent _⟩
  | some e => exact ⟨rfl, h.failFor e⟩

theorem memoized? (h : SameParse E.input s s') (index : Nat) :
    s'.memoized? (E.instrumented traced counted) index = s.memoized? E index := by
  cases h
  rfl

variable (traced counted) in
theorem remember (h : SameParse E.input s s') (index start : Nat) (result : Slot) :
    SameParse E.input (s.remember E index start result)
      (s'.remember (E.instrumented traced counted) index start result) := by
  have hmemoized : (E.instrumented traced counted).program.isMemoized index =
      E.program.isMemoized index := rfl
  cases h with
  | intro tracker statistics events reads reads' =>
    simp only [State.remember, hmemoized]
    split
    · exact .intro tracker statistics events reads reads'
    · exact .intro tracker statistics events reads reads'

variable (traced counted) in
theorem entered (h : SameParse E.input s s') (index : Nat) :
    SameParse E.input (s.entered E index) (s'.entered (E.instrumented traced counted) index) :=
  (h.count index _ _).trace _ _ _ _ _ _ _ _ _

theorem moved (h : SameParse E.input s s') (p : Nat) :
    SameParse E.input { s with pos := p } { s' with pos := p } := by
  cases h with
  | intro tracker statistics events reads reads' =>
    exact .intro tracker statistics events reads reads'

theorem running (h : SameParse E.input s s') (index : Option Nat) :
    SameParse E.input { s with currentRule := index } { s' with currentRule := index } := by
  cases h with
  | intro tracker statistics events reads reads' =>
    exact .intro tracker statistics events reads reads'

theorem recalled (h : SameParse E.input s s') (index start nextPos : Nat) (result : Slot) :
    SameParse E.input (s.recalled E index start nextPos result)
      (s'.recalled (E.instrumented traced counted) index start nextPos result) := by
  have hcount := (h.moved nextPos).count index
    (·.countRecall s.currentRule result.isFailed s.isSilent)
    (·.countRecall s'.currentRule result.isFailed s'.isSilent)
  simp only [State.recalled]
  split
  · exact hcount.trace _ _ _ _ _ _ _ _ _
  · exact hcount.trace _ _ _ _ _ _ _ _ _

theorem returned (h : SameParse E.input s s') (index start : Nat) (result : Slot) :
    SameParse E.input (s.returned E index start result)
      (s'.returned (E.instrumented traced counted) index start result) := by
  have hcount := (h.remember traced counted index start result).count index
    (·.countReturn result.isFailed s.isSilent) (·.countReturn result.isFailed s'.isSilent)
  simp only [State.returned]
  split
  · exact hcount.trace _ _ _ _ _ _ _ _ _
  · exact hcount.trace _ _ _ _ _ _ _ _ _

/-- A rule is left alike if it was entered alike. -/
theorem left {entry entry' : State σ} (hentry : SameParse E.input entry entry')
    (h : SameParse E.input s s') (index : Nat) (o : Outcome Slot) :
    SameParse E.input (State.left E entry index o s)
      (State.left (E.instrumented traced counted) entry' index o s') := by
  have hrule : entry'.currentRule = entry.currentRule ∧ entry'.pos = entry.pos := by
    cases hentry
    exact ⟨rfl, rfl⟩
  unfold State.left
  rw [hrule.1, hrule.2]
  cases o with
  | ok result => exact (h.running _).returned index _ result
  | error e => exact h.running _

end State.SameParse

open State (SameParse)

variable {E : Setting σ} {traced counted : Bool}

/-- An invocation comes to the same if the body of the rule does. -/
theorem Run.Same.rule {body body' : Run (State σ) Slot} (h : Run.Same E.input body body')
    (index : Nat) :
    Run.Same E.input (State.rule E index body)
      (State.rule (E.instrumented traced counted) index body') := by
  intro s s' hs
  have hentered := hs.entered traced counted index
  have hpos : s'.pos = s.pos := by
    cases hs
    rfl
  simp only [State.rule, hentered.memoized? index, hpos]
  cases (s.entered E index).memoized? E index with
  | some hit => exact .some ⟨rfl, hentered.recalled index s.pos hit.1 hit.2⟩
  | none =>
    have hbody := h _ _ (hentered.running (some index))
    dsimp only
    generalize body _ = r at hbody ⊢
    generalize body' _ = r' at hbody ⊢
    cases hbody with
    | none => exact .none
    | @some r r' hr =>
      obtain ⟨o, t⟩ := r
      obtain ⟨o', t'⟩ := r'
      obtain ⟨rfl, ht⟩ : o = o' ∧ _ := hr
      exact .some ⟨rfl, hs.left ht index o⟩

/-! ## Machine code -/

namespace Interpreter

variable {s s' : State σ}

/-- A condition holds alike. -/
theorem holds_instrumented (h : SameParse E.input s s') (opcode : Opcode) (arg : Nat → Nat)
    (stack : List Slot) :
    holds (E.instrumented traced counted) opcode arg stack s' = holds E opcode arg stack s := by
  cases h
  rfl

variable (traced counted) in
/-- An instruction without blocks does the same. -/
theorem plain_instrumented (h : SameParse E.input s s') (opcode : Opcode) (arg : Nat → Nat)
    (stack : List Slot) :
    State.SameResult E.input (plain E opcode arg stack s)
      (plain (E.instrumented traced counted) opcode arg stack s') := by
  cases opcode with
  | call =>
    obtain ⟨ho, hcall⟩ := h.call traced counted (arg 1)
      ((List.range (arg 3)).map fun i => (stack.getD (arg (4 + i)) .failed).toValue)
    simp only [plain]
    generalize s.call E _ _ = r at ho hcall ⊢
    generalize s'.call _ _ _ = r' at ho hcall ⊢
    obtain ⟨o, t⟩ := r
    obtain ⟨o', t'⟩ := r'
    obtain rfl : o = o' := ho
    cases o with
    | error e => exact ⟨rfl, hcall⟩
    | ok v => exact ⟨rfl, hcall⟩
  | fail =>
    obtain ⟨hfail, hstate⟩ := h.fail traced counted (arg 1)
    exact ⟨by simp only [plain, pushing, hfail], hstate⟩
  | pushFailed => exact ⟨rfl, h.countCurrent _⟩
  | popCurrPos => exact ⟨rfl, h.restorePos _⟩
  | loadSavedPos => exact ⟨rfl, h.loadSavedPos _⟩
  | _ =>
    cases h with
    | intro tracker statistics events reads reads' =>
      exact ⟨rfl, .intro tracker statistics events reads reads'⟩

/-- Steps that lead to the same. -/
inductive SameStep (input : Input) : Step σ → Step σ → Prop where
  | next (f : Frame) {s s' : State σ} (h : SameParse input s s') :
    SameStep input (.next f s) (.next f s')
  | invoke (rule : Nat) (f : Frame) {s s' : State σ} (h : SameParse input s s') :
    SameStep input (.invoke rule f s) (.invoke rule f s')
  | abort (e : ParseFailure) {s s' : State σ} (h : SameParse input s s') :
    SameStep input (.abort e s) (.abort e s')
  | done (result : Slot) {s s' : State σ} (h : SameParse input s s') :
    SameStep input (.done result s) (.done result s')

variable (traced counted) in
theorem step_instrumented (h : SameParse E.input s s') (f : Frame) :
    SameStep E.input (step E f s) (step (E.instrumented traced counted) f s') := by
  unfold step
  split
  · split
    · next opcode hopcode =>
      unfold stepOpcode
      rw [holds_instrumented h]
      split
      · exact .next _ h
      · split
        · exact .next _ h
        · split
          · exact .invoke _ _ h
          · obtain ⟨ho, hplain⟩ := plain_instrumented traced counted h
              opcode f.operand f.stack
            generalize plain E _ _ _ _ = r at ho hplain ⊢
            generalize plain (E.instrumented traced counted) _ _ _ _ = r' at ho hplain ⊢
            obtain ⟨o, t⟩ := r
            obtain ⟨o', t'⟩ := r'
            obtain rfl : o = o' := ho
            cases o with
            | error e => exact .abort e hplain
            | ok stack => exact .next _ hplain
    · exact .next _ h
  · split
    · exact .next _ h
    · exact .done _ h

theorem runBody_instrumented {n : Nat} (h : ∀ f, Run.Same E.input (runFrame E n f)
    (runFrame (E.instrumented traced counted) n f)) (index : Nat) :
    Run.Same E.input (runBody E n index) (runBody (E.instrumented traced counted) n index) := by
  have hrules : (E.instrumented traced counted).program.rules = E.program.rules := rfl
  unfold runBody
  rw [hrules]
  cases E.program.rules[index]? with
  | none => exact .pure _
  | some rule => exact h _

theorem runFrame_instrumented (n : Nat) (f : Frame) :
    Run.Same E.input (runFrame E n f) (runFrame (E.instrumented traced counted) n f) := by
  induction n generalizing f with
  | zero => exact .forever
  | succ n ih =>
    intro s s' h
    have hstep := step_instrumented traced counted h f
    generalize hx : step E f s = x at hstep
    generalize hx' : step (E.instrumented traced counted) f s' = x' at hstep
    cases hstep with
    | next g ht =>
      rw [runFrame_succ, runFrame_succ, hx, hx']
      exact ih g _ _ ht
    | abort e ht =>
      rw [runFrame_succ, runFrame_succ, hx, hx']
      exact .some ⟨rfl, ht⟩
    | done result ht =>
      rw [runFrame_succ, runFrame_succ, hx, hx']
      exact .some ⟨rfl, ht⟩
    | invoke index g ht =>
      rw [runFrame_invoke hx, runFrame_invoke hx']
      exact Run.Same.bind (Run.Same.rule (runBody_instrumented ih index) index)
        (fun result => ih _) _ _ ht

/-- An invocation comes to the same. -/
theorem runRule_instrumented (n index : Nat) :
    Run.Same E.input (runRule E n index) (runRule (E.instrumented traced counted) n index) :=
  .rule (runBody_instrumented (runFrame_instrumented n) index) index

end Interpreter

/-! ## Routines -/

namespace Routine

variable {s s' : State σ} {rs : Array Routine} {invoke invoke' : Nat → Run (State σ) Slot}

/-- A condition holds alike. -/
theorem Cond.holds_instrumented (h : SameParse E.input s s') (cond : Cond) (slots : Array Slot) :
    cond.holds (E.instrumented traced counted) slots s' = cond.holds E slots s := by
  cases h
  cases cond <;> rfl

variable (traced counted) in
/-- An expression that invokes nothing has the same value. -/
theorem Expr.simple_instrumented (h : SameParse E.input s s') (value : Expr) (slots : Array Slot) :
    (value.simple E slots s).1 = (value.simple (E.instrumented traced counted) slots s').1 ∧
      (value.simple E slots s).2.1 = (value.simple (E.instrumented traced counted) slots s').2.1 ∧
      SameParse E.input (value.simple E slots s).2.2
        (value.simple (E.instrumented traced counted) slots s').2.2 := by
  cases value with
  | fail c =>
    obtain ⟨hfail, hstate⟩ := h.fail traced counted c
    exact ⟨hfail, rfl, hstate⟩
  | failed => exact ⟨rfl, rfl, h.countCurrent _⟩
  | _ =>
    cases h with
    | intro tracker statistics events reads reads' =>
      exact ⟨rfl, rfl, .intro tracker statistics events reads reads'⟩

/-- An assignment does the same. -/
theorem assign_instrumented (hinvoke : ∀ i, Run.Same E.input (invoke i) (invoke' i))
    (rounds target : Nat) (value : Expr) (slots : Array Slot) :
    Run.Same E.input (exec E invoke rounds (.assign target value) slots)
      (exec (E.instrumented traced counted) invoke' rounds (.assign target value) slots) := by
  cases value with
  | rule index => exact (hinvoke index).bind fun v => .pure _
  | call action args =>
    intro s s' h
    obtain ⟨ho, hcall⟩ := h.call traced counted action
      (args.map fun i => (slot slots i).toValue)
    simp only [exec]
    generalize s.call E _ _ = r at ho hcall ⊢
    generalize s'.call _ _ _ = r' at ho hcall ⊢
    obtain ⟨o, t⟩ := r
    obtain ⟨o', t'⟩ := r'
    obtain rfl : o = o' := ho
    cases o with
    | error e => exact .some ⟨rfl, hcall⟩
    | ok v => exact .some ⟨rfl, hcall⟩
  | _ =>
    intro s s' h
    obtain ⟨hvalue, hslots, hstate⟩ := Expr.simple_instrumented traced counted h _ slots
    rw [exec_assign (by simp) (by simp), exec_assign (by simp) (by simp), ← hvalue, ← hslots]
    exact .some ⟨rfl, hstate⟩

mutual

theorem exec_instrumented (hinvoke : ∀ i, Run.Same E.input (invoke i) (invoke' i)) (rounds : Nat)
    (stmt : Stmt) (slots : Array Slot) :
    Run.Same E.input (exec E invoke rounds stmt slots)
      (exec (E.instrumented traced counted) invoke' rounds stmt slots) := by
  match stmt with
  | .assign target value => exact assign_instrumented hinvoke rounds target value slots
  | .branch cond held otherwise =>
    intro s s' h
    simp only [exec, cond.holds_instrumented h]
    split
    · exact execAll_instrumented hinvoke rounds held slots _ _ h
    · exact execAll_instrumented hinvoke rounds otherwise slots _ _ h
  | .loop cond body =>
    exact .repeatWhile (fun slots _ _ h => (cond.holds_instrumented h slots).symm)
      (fun slots => execAll_instrumented hinvoke rounds body slots) rounds slots
  | .append array item => exact .pure _
  | .restorePos i => exact fun _ _ h => .some ⟨rfl, h.restorePos _⟩
  | .loadSavedPos i => exact fun _ _ h => .some ⟨rfl, h.loadSavedPos _⟩
  | .updateSavedPos | .silentOn | .silentOff | .silentReset =>
    intro s s' h
    cases h with
    | intro tracker statistics events reads reads' =>
      exact .some ⟨rfl, .intro tracker statistics events reads reads'⟩

theorem execAll_instrumented (hinvoke : ∀ i, Run.Same E.input (invoke i) (invoke' i))
    (rounds : Nat) (stmts : List Stmt) (slots : Array Slot) :
    Run.Same E.input (execAll E invoke rounds stmts slots)
      (execAll (E.instrumented traced counted) invoke' rounds stmts slots) := by
  match stmts with
  | [] => exact .pure _
  | stmt :: rest =>
    exact (exec_instrumented hinvoke rounds stmt slots).bind fun slots =>
      execAll_instrumented hinvoke rounds rest slots

end

theorem runRule_instrumented (n index : Nat) :
    Run.Same E.input (runRule E rs n index)
      (runRule (E.instrumented traced counted) rs n index) := by
  induction n generalizing index with
  | zero => exact .forever
  | succ n ih =>
    refine .rule ?_ index
    unfold runBody
    cases rs[index]? with
    | none => exact .pure _
    | some r => exact (execAll_instrumented ih n r.body _).bind fun slots => .pure _

end Routine

/-! ## Parses -/

/-- A new parse starts alike, whatever was counted before. -/
theorem Setting.sameParse_initial (E : Setting σ) (traced counted : Bool)
    (before before' : Statistics) (hs : σ) :
    SameParse E.input (E.initial before hs)
      ((E.instrumented traced counted).initial before' hs) := by
  have hreads := Tracker.reads_ofInput E.input
  exact .intro (s := E.initial before hs) _ _ [] hreads hreads

/-- A parse ends alike: a failure is shown with the same place, expectations and text. -/
theorem State.SameParse.finish {s s' : State σ} (h : SameParse E.input s s') (result : Slot) :
    s'.finish (E.instrumented traced counted) result = s.finish E result := by
  have hfailure : ∀ {t t' : State σ}, SameParse E.input t t' →
      t'.failure (E.instrumented traced counted) = t.failure E := by
    intro t t' ht
    cases ht with
    | intro tracker statistics events reads reads' =>
      simp only [State.failure, (reads.location _ _).1, (reads'.location _ _).1]
      rfl
  have hpos : s'.pos = s.pos := by
    cases h
    rfl
  have hinput : (E.instrumented traced counted).input = E.input := rfl
  simp only [State.finish, hfailure h, hfailure (h.report .endOfInput), hpos, hinput]

namespace Parser

/-- The parser with another switch for tracing and for statistics, and with other counters. -/
def instrumented (p : Parser) (traced counted : Bool) (before : Statistics) : Parser where
  program := p.program.instrumented traced counted
  patterns := p.patterns
  patterns_eq := p.patterns_eq
  executor := p.executor
  statistics := before

variable (p : Parser) (traced counted : Bool) (before : Statistics)

/-- Invocations come to the same, whatever runs them. -/
theorem runRule_instrumented (E : Setting σ) (n index : Nat) :
    Run.Same E.input (p.runRule E n index)
      ((p.instrumented traced counted before).runRule (E.instrumented traced counted) n index) := by
  have hexecutor : (p.instrumented traced counted before).executor = p.executor := rfl
  unfold Parser.runRule
  rw [hexecutor]
  cases p.executor with
  | interpreter => exact Interpreter.runRule_instrumented n index
  | routines rs => exact Routine.runRule_instrumented n index

/-- Reports of parses that ended alike agree on everything but what the instruments hold. -/
theorem reportOf_instrumented {E : Setting σ} {s s' : State σ} (h : SameParse E.input s s')
    (o : Outcome Slot) :
    ((p.instrumented traced counted before).reportOf (E.instrumented traced counted) o s').outcome =
        (p.reportOf E o s).outcome ∧
      ((p.instrumented traced counted before).reportOf (E.instrumented traced counted) o
        s').handlerState = (p.reportOf E o s).handlerState := by
  have hhandler : s'.handlerState = s.handlerState := by
    cases h
    rfl
  refine ⟨?_, hhandler⟩
  cases o with
  | error e => rfl
  | ok result => exact h.finish result

/-- Instrumentation is inert: whether a parser traces and counts, and what was counted before, makes
no difference to the value or the failure that a parse gives, nor to the state in which the handler
of actions is left, who may keep a list of all calls (`Handler.recording`). Both parses need the
same fuel, so one ends if the other does. -/
theorem run_instrumented (n : Nat) (handler : Handler σ) (hs : σ) (input : Input)
    (startRule : Option String) :
    ((p.instrumented traced counted before).run n handler hs input startRule).map
        (fun r => (r.outcome, r.handlerState)) =
      (p.run n handler hs input startRule).map fun r => (r.outcome, r.handlerState) := by
  have hstart : (p.instrumented traced counted before).program.startIndex startRule =
    p.program.startIndex startRule := rfl
  unfold Parser.run
  rw [hstart]
  cases p.program.startIndex startRule with
  | error e => rfl
  | ok start =>
    let E := p.setting handler input
    have hsetting : (p.instrumented traced counted before).setting handler input =
      E.instrumented traced counted := rfl
    have hends := p.runRule_instrumented traced counted before E n start _ _
      (E.sameParse_initial traced counted p.statistics before hs)
    simp only [Parser.runFrom, Option.map_map, hsetting]
    change Option.map _ (Parser.runRule _ (E.instrumented traced counted) n start
      ((E.instrumented traced counted).initial before hs)) =
        Option.map _ (p.runRule E n start (E.initial p.statistics hs))
    generalize Parser.runRule _ (E.instrumented traced counted) n start _ = y at hends ⊢
    generalize p.runRule E n start _ = x at hends ⊢
    cases hends with
    | none => rfl
    | @some r r' hr =>
      obtain ⟨o, s⟩ := r
      obtain ⟨o', s'⟩ := r'
      obtain ⟨rfl, hs⟩ : o = o' ∧ _ := hr
      obtain ⟨houtcome, hhandler⟩ := p.reportOf_instrumented traced counted before hs o
      exact congrArg some (Prod.ext houtcome hhandler)

end Parser

end PegMachine
