import Mathlib.Data.List.Forall2
import PegMachine.Proofs.Structured

/-!
# Frames and structured code

A frame in front of placed code does what the structured code does. The proof goes both ways: a
frame that ends has run the structured code to its end on the way, and structured code that ends
brings the frame behind it. The amounts of fuel differ, since a frame spends fuel on every
instruction and structured code on invocations and rounds of loops only.
-/

namespace PegMachine

open Filter

variable {σ : Type} {E : Setting σ} {code : Array UInt32} {stack : List Slot} {ip stop n : Nat}
  {resume : List (Nat × Nat)} {s : State σ}

namespace Interpreter

/-! ## One step of a frame -/

theorem step_opcode {opcode : Opcode} (lt : ip < stop)
    (word : (code[ip]?).bind Opcode.ofWord? = some opcode) :
    step E ⟨code, stack, ip, stop, resume⟩ s =
      stepOpcode E ⟨code, stack, ip, stop, resume⟩ s opcode := by
  simp only [step, lt, if_true, word]

/-- The end of the outermost block is the end of the run. -/
theorem step_done (h : stop ≤ ip) :
    step E ⟨code, stack, ip, stop, []⟩ s = .done (stack.headD .failed) s := by
  simp only [step, Nat.not_lt.mpr h, if_false, Frame.top]

/-- The end of an inner block leads to where the block around it goes on. -/
theorem step_leave (h : stop ≤ ip) {stop' ip' : Nat} :
    step E ⟨code, stack, ip, stop, (stop', ip') :: resume⟩ s =
      .next ⟨code, stack, ip', stop', resume⟩ s := by
  simp only [step, Nat.not_lt.mpr h, if_false]

/-- An instruction without blocks changes stack and state, or ends the parse. -/
theorem step_plain {opcode : Opcode} {operands : List UInt32} (lt : ip < stop)
    (word : (code[ip]?).bind Opcode.ofWord? = some opcode)
    (not_condition : opcode.isCondition = false) (not_loop : opcode.isLoop = false)
    (not_rule : opcode ≠ .rule)
    (width : opcode.width (fun i => Instruction.wordAt code (ip + i)) = operands.length)
    (spells : Spells code ip operands) :
    step E ⟨code, stack, ip, stop, resume⟩ s =
      match plain E opcode (Instr.arg operands) stack s with
      | (.ok stack, s) => .next ⟨code, stack, ip + 1 + operands.length, stop, resume⟩ s
      | (.error e, s) => .abort e s := by
  have hplain : plain E opcode (fun i => Instruction.wordAt code (ip + i)) stack s =
      plain E opcode (Instr.arg operands) stack s :=
    plain_congr E (fun i hi => (spells i (width ▸ hi)).symm) stack s
  rw [step_opcode lt word, ← hplain]
  simp only [stepOpcode, not_condition, not_loop, not_rule, if_false, Bool.false_eq_true]
  change (match plain E opcode (fun i => Instruction.wordAt code (ip + i)) stack s with
    | (.ok stack', s) => Step.next (Frame.moveTo ⟨code, stack, ip, stop, resume⟩ stack'
        (opcode.width fun i => Instruction.wordAt code (ip + i))) s
    | (.error e, s) => .abort e s) = _
  rw [width]
  rcases plain E opcode (fun i => Instruction.wordAt code (ip + i)) stack s with ⟨_ | _, _⟩ <;> rfl

/-- The instruction that invokes a rule leaves that to the caller. -/
theorem step_rule {operands : List UInt32} (lt : ip < stop)
    (word : (code[ip]?).bind Opcode.ofWord? = some .rule)
    (width : Opcode.rule.width (fun i => Instruction.wordAt code (ip + i)) = operands.length)
    (spells : Spells code ip operands) :
    step E ⟨code, stack, ip, stop, resume⟩ s =
      .invoke (Instr.arg operands 1) ⟨code, stack, ip + 1 + operands.length, stop, resume⟩ s := by
  have hlength : operands.length = 1 := by rw [← width]; simp [Opcode.width, Opcode.operands]
  have harg : Instr.arg operands 1 = Instruction.wordAt code (ip + 1) := spells 0 (by omega)
  rw [step_opcode lt word, harg, hlength]
  rfl

/-- A condition leads into one of its blocks. -/
theorem step_branch {opcode : Opcode} {operands : List UInt32} {t f : Nat} (lt : ip < stop)
    (word : (code[ip]?).bind Opcode.ofWord? = some opcode) (condition : opcode.isCondition = true)
    (width : opcode.operands = operands.length + 2) (spells : Spells code ip operands)
    (t_eq : Instruction.wordAt code (ip + (operands.length + 1)) = t)
    (f_eq : Instruction.wordAt code (ip + (operands.length + 2)) = f) :
    step E ⟨code, stack, ip, stop, resume⟩ s =
      if holds E opcode (Instr.arg operands) stack s then
        .next ⟨code, stack, ip + (operands.length + 3), ip + (operands.length + 3) + t,
          (stop, ip + (operands.length + 3) + t + f) :: resume⟩ s
      else
        .next ⟨code, stack, ip + (operands.length + 3) + t,
          ip + (operands.length + 3) + t + f,
          (stop, ip + (operands.length + 3) + t + f) :: resume⟩ s := by
  have hholds : holds E opcode (fun i => Instruction.wordAt code (ip + i)) stack s =
      holds E opcode (Instr.arg operands) stack s :=
    holds_congr E width (fun i hi => (spells i hi).symm) stack s
  rw [step_opcode lt word, ← hholds]
  simp only [stepOpcode, condition, if_true, width]
  change Step.next (Frame.branch ⟨code, stack, ip, stop, resume⟩ _ _) s = _
  have hbase : ip + 1 + (operands.length + 2) = ip + (operands.length + 3) := by omega
  rcases hb : holds E opcode (fun i => Instruction.wordAt code (ip + i)) stack s with _ | _
  · have hb' : holds E opcode (Frame.operand ⟨code, stack, ip, stop, resume⟩) stack s = false := hb
    simp [Frame.branch, Frame.operand, hb', hbase, t_eq, f_eq]
  · have hb' : holds E opcode (Frame.operand ⟨code, stack, ip, stop, resume⟩) stack s = true := hb
    simp [Frame.branch, Frame.operand, hb', hbase, t_eq, f_eq]

/-- A loop leads into its body and back, or behind it. -/
theorem step_loop {b : Nat} (lt : ip < stop)
    (word : (code[ip]?).bind Opcode.ofWord? = some .whileNotError)
    (b_eq : Instruction.wordAt code (ip + 1) = b) :
    step E ⟨code, stack, ip, stop, resume⟩ s =
      if Instr.repeats stack s then
        .next ⟨code, stack, ip + 2, ip + 2 + b, (stop, ip) :: resume⟩ s
      else .next ⟨code, stack, ip + 2 + b, stop, resume⟩ s := by
  rw [step_opcode lt word]
  change Step.next (Frame.loop ⟨code, stack, ip, stop, resume⟩ (Instr.repeats stack s)) s = _
  rw [Frame.loop]
  simp only [Frame.operand, b_eq]
  split <;> rfl

/-! ## The run of a frame after one step -/

theorem runFrame_succ {f : Frame} :
    runFrame E (n + 1) f s =
      match step E f s with
      | .next f s => runFrame E n f s
      | .done result s => some (.ok result, s)
      | .abort e s => some (.error e, s)
      | .invoke index f s =>
        match runRule E n index s with
        | some (.ok result, s) => runFrame E n { f with stack := result :: f.stack } s
        | some (.error e, s) => some (.error e, s)
        | none => none := by
  rw [runFrame]
  beta_reduce
  cases step E f s <;> rfl

/-- After an invocation a frame goes on with the result. -/
theorem runFrame_invoke {f g : Frame} {index : Nat} {t : State σ}
    (h : step E f s = .invoke index g t) :
    runFrame E (n + 1) f s =
      (runRule E n index >>= fun result => runFrame E n { g with stack := result :: g.stack }) t := by
  rw [runFrame_succ, h, Run.bind_apply]
  dsimp only
  rcases runRule E n index t with - | ⟨e | result, u⟩ <;> rfl

theorem runFrame_done (h : stop ≤ ip) :
    runFrame E (n + 1) ⟨code, stack, ip, stop, []⟩ s = some (.ok (stack.headD .failed), s) := by
  rw [runFrame_succ, step_done h]

theorem runFrame_leave (h : stop ≤ ip) {stop' ip' : Nat} :
    runFrame E (n + 1) ⟨code, stack, ip, stop, (stop', ip') :: resume⟩ s =
      runFrame E n ⟨code, stack, ip', stop', resume⟩ s := by
  rw [runFrame_succ, step_leave h]

theorem runFrame_plain {opcode : Opcode} {operands : List UInt32} (lt : ip < stop)
    (word : (code[ip]?).bind Opcode.ofWord? = some opcode)
    (not_condition : opcode.isCondition = false) (not_loop : opcode.isLoop = false)
    (not_rule : opcode ≠ .rule)
    (width : opcode.width (fun i => Instruction.wordAt code (ip + i)) = operands.length)
    (spells : Spells code ip operands) :
    runFrame E (n + 1) ⟨code, stack, ip, stop, resume⟩ s =
      match plain E opcode (Instr.arg operands) stack s with
      | (.ok stack, s) => runFrame E n ⟨code, stack, ip + 1 + operands.length, stop, resume⟩ s
      | (.error e, s) => some (.error e, s) := by
  rw [runFrame_succ, step_plain lt word not_condition not_loop not_rule width spells]
  rcases plain E opcode (Instr.arg operands) stack s with ⟨_ | _, _⟩ <;> rfl

theorem runFrame_rule {operands : List UInt32} (lt : ip < stop)
    (word : (code[ip]?).bind Opcode.ofWord? = some .rule)
    (width : Opcode.rule.width (fun i => Instruction.wordAt code (ip + i)) = operands.length)
    (spells : Spells code ip operands) :
    runFrame E (n + 1) ⟨code, stack, ip, stop, resume⟩ s =
      match runRule E n (Instr.arg operands 1) s with
      | some (.ok result, s) =>
        runFrame E n ⟨code, result :: stack, ip + 1 + operands.length, stop, resume⟩ s
      | some (.error e, s) => some (.error e, s)
      | none => none := by
  rw [runFrame_succ, step_rule lt word width spells]

theorem runFrame_branch {opcode : Opcode} {operands : List UInt32} {t f : Nat} (lt : ip < stop)
    (word : (code[ip]?).bind Opcode.ofWord? = some opcode) (condition : opcode.isCondition = true)
    (width : opcode.operands = operands.length + 2) (spells : Spells code ip operands)
    (t_eq : Instruction.wordAt code (ip + (operands.length + 1)) = t)
    (f_eq : Instruction.wordAt code (ip + (operands.length + 2)) = f) :
    runFrame E (n + 1) ⟨code, stack, ip, stop, resume⟩ s =
      if holds E opcode (Instr.arg operands) stack s then
        runFrame E n ⟨code, stack, ip + (operands.length + 3), ip + (operands.length + 3) + t,
          (stop, ip + (operands.length + 3) + t + f) :: resume⟩ s
      else
        runFrame E n ⟨code, stack, ip + (operands.length + 3) + t,
          ip + (operands.length + 3) + t + f,
          (stop, ip + (operands.length + 3) + t + f) :: resume⟩ s := by
  rw [runFrame_succ, step_branch lt word condition width spells t_eq f_eq]
  cases holds E opcode (Instr.arg operands) stack s <;> rfl

theorem runFrame_loop {b : Nat} (lt : ip < stop)
    (word : (code[ip]?).bind Opcode.ofWord? = some .whileNotError)
    (b_eq : Instruction.wordAt code (ip + 1) = b) :
    runFrame E (n + 1) ⟨code, stack, ip, stop, resume⟩ s =
      if Instr.repeats stack s then
        runFrame E n ⟨code, stack, ip + 2, ip + 2 + b, (stop, ip) :: resume⟩ s
      else runFrame E n ⟨code, stack, ip + 2 + b, stop, resume⟩ s := by
  rw [runFrame_succ, step_loop lt word b_eq]
  cases Instr.repeats stack s <;> rfl

/-! ## From frames to structured code -/

/-- How a frame with result `r` goes on once the words between `ip` and `stop` had an outcome: it
still has to end with `r`, on no more fuel than there was. -/
def GoesOn (E : Setting σ) (code : Array UInt32) (stop : Nat) (resume : List (Nat × Nat)) (n : Nat)
    (r : Outcome Slot × State σ) : Outcome (List Slot) → State σ → Prop
  | .ok stack, s => ∃ k ≤ n, ∃ ip, stop ≤ ip ∧
      runFrame E k ⟨code, stack, ip, stop, resume⟩ s = some r
  | .error e, s => r = (.error e, s)

theorem GoesOn.mono {stop n n' : Nat} {r : Outcome Slot × State σ} {o : Outcome (List Slot)}
    (h : GoesOn E code stop resume n r o s) (hn : n ≤ n') : GoesOn E code stop resume n' r o s := by
  cases o with
  | error e => exact h
  | ok stack =>
    obtain ⟨k, hk, rest⟩ := h
    exact ⟨k, hk.trans hn, rest⟩

/-- A frame behind an inner block goes on behind the condition or loop of the block. -/
theorem GoesOn.leave {stop stop' ip' n : Nat} {r : Outcome Slot × State σ} {stack : List Slot}
    (h : GoesOn E code stop ((stop', ip') :: resume) n r (.ok stack) s) :
    ∃ k < n, runFrame E k ⟨code, stack, ip', stop', resume⟩ s = some r := by
  obtain ⟨k, hk, ip, hip, hrun⟩ := h
  cases k with
  | zero => cases hrun
  | succ k =>
    rw [runFrame_leave hip] at hrun
    exact ⟨k, by omega, hrun⟩

end Interpreter

open Interpreter

variable {invoke : Nat → Nat → Run (State σ) Slot} {r : Outcome Slot × State σ}

/-- What a frame does in front of a loop, given what it does in front of the body: the rounds of
the loop are no more than the fuel of the frame. -/
theorem Instr.repeatWhile_of_runFrame {b : Nat} {body : Code} (lt : ip < stop)
    (word : (code[ip]?).bind Opcode.ofWord? = some .whileNotError)
    (b_eq : Instruction.wordAt code (ip + 1) = b)
    (hbody : ∀ k < n, ∀ stack s,
      runFrame E k ⟨code, stack, ip + 2, ip + 2 + b, (stop, ip) :: resume⟩ s = some r →
      ∃ o t, (∀ m ≥ n, execAll E (invoke m) m body stack s = some (o, t)) ∧
        GoesOn E code (ip + 2 + b) ((stop, ip) :: resume) k r o t) :
    ∀ j ≤ n, ∀ stack s, runFrame E j ⟨code, stack, ip, stop, resume⟩ s = some r →
      ∃ o t, (∀ m ≥ n, ∀ rounds ≥ j,
          Run.repeatWhile repeats (execAll E (invoke m) m body) rounds stack s = some (o, t)) ∧
        match o with
        | .ok stack => ∃ k < j, runFrame E k ⟨code, stack, ip + 2 + b, stop, resume⟩ t = some r
        | .error e => r = (.error e, t) := by
  intro j
  induction j using Nat.strong_induction_on with
  | _ j ih =>
    intro hj stack s hrun
    cases j with
    | zero => cases hrun
    | succ j =>
      rw [runFrame_loop lt word b_eq] at hrun
      cases htest : repeats stack s with
      | false =>
        rw [htest, if_neg Bool.false_ne_true] at hrun
        refine ⟨.ok stack, s, fun m _ rounds hrounds => ?_, j, by omega, hrun⟩
        obtain ⟨rounds, rfl⟩ := Nat.exists_eq_add_of_le' (Nat.one_le_of_lt hrounds)
        exact Run.repeatWhile_of_not htest
      | true =>
        rw [htest, if_pos rfl] at hrun
        obtain ⟨o, t, hexec, hgoes⟩ := hbody j (by omega) stack s hrun
        cases o with
        | error e =>
          refine ⟨.error e, t, fun m hm rounds hrounds => ?_, hgoes⟩
          obtain ⟨rounds, rfl⟩ := Nat.exists_eq_add_of_le' (Nat.one_le_of_lt hrounds)
          rw [Run.repeatWhile_of_test htest, Run.bind_error (hexec m hm)]
        | ok stack' =>
          obtain ⟨k, hk, hagain⟩ := hgoes.leave
          obtain ⟨o, u, hloop, hrest⟩ := ih k (by omega) (by omega) stack' t hagain
          refine ⟨o, u, fun m hm rounds hrounds => ?_, ?_⟩
          · obtain ⟨rounds, rfl⟩ := Nat.exists_eq_add_of_le' (Nat.one_le_of_lt hrounds)
            rw [Run.repeatWhile_of_test htest, Run.bind_ok (hexec m hm)]
            exact hloop m hm rounds (by omega)
          · cases o with
            | error e => exact hrest
            | ok stack'' =>
              obtain ⟨k', hk', hrest⟩ := hrest
              exact ⟨k', by omega, hrest⟩

/-- A frame that ends ran the structured code in front of it to an outcome, provided that
invocations with less fuel agree. -/
theorem Placed.exec_of_runFrame
    (hinvoke : ∀ k < n, ∀ i s r, runRule E k i s = some r → ∀ m > k, invoke m i s = some r) :
    ∀ {c : Code} {ip stop : Nat}, Placed code c ip stop → ∀ (resume : List (Nat × Nat)) stack s,
      runFrame E n ⟨code, stack, ip, stop, resume⟩ s = some r →
      ∃ o t, (∀ m ≥ n, Instr.execAll E (invoke m) m c stack s = some (o, t)) ∧
        GoesOn E code stop resume n r o t := by
  induction n using Nat.strong_induction_on with
  | _ n ih =>
    intro c ip stop hplaced resume stack s hrun
    cases n with
    | zero => cases hrun
    | succ n =>
      -- The code behind an instruction that took fuel is run on less fuel.
      have hrest : ∀ {k : Nat}, k ≤ n → ∀ {i : Instr} {rest : Code} {ip' : Nat} {stack stack' s s'},
          Placed code rest ip' stop →
          (∀ m ≥ n + 1, Instr.exec E (invoke m) m i stack s = some (.ok stack', s')) →
          runFrame E k ⟨code, stack', ip', stop, resume⟩ s' = some r →
          ∃ o t, (∀ m ≥ n + 1, Instr.execAll E (invoke m) m (i :: rest) stack s = some (o, t)) ∧
            GoesOn E code stop resume (n + 1) r o t := by
        intro k hk i rest ip' stack stack' s s' hplaced hexec hrun
        obtain ⟨o, t, hall, hgoes⟩ := ih k (by omega)
          (fun k' hk' => hinvoke k' (by omega)) hplaced resume stack' s' hrun
        refine ⟨o, t, fun m hm => ?_, hgoes.mono (by omega)⟩
        rw [Instr.execAll, Run.bind_ok (hexec m hm)]
        exact hall m (by omega)
      have hend : ∀ {i : Instr} {rest : Code} {stack s s' e},
          (∀ m ≥ n + 1, Instr.exec E (invoke m) m i stack s = some (.error e, s')) →
          r = (.error e, s') →
          ∃ o t, (∀ m ≥ n + 1, Instr.execAll E (invoke m) m (i :: rest) stack s = some (o, t)) ∧
            GoesOn E code stop resume (n + 1) r o t := by
        intro i rest stack s s' e hexec hr
        refine ⟨.error e, s', fun m hm => ?_, hr⟩
        rw [Instr.execAll, Run.bind_error (hexec m hm)]
      cases hplaced with
      | nil le => exact ⟨.ok stack, s, fun m _ => rfl, n + 1, le_rfl, ip, le, hrun⟩
      | @plain _ _ opcode operands rest lt word not_condition not_loop width spells next =>
        by_cases hrule : opcode = .rule
        · subst hrule
          rw [runFrame_rule lt word width spells] at hrun
          cases hinv : runRule E n (Instr.arg operands 1) s with
          | none => rw [hinv] at hrun; cases hrun
          | some out =>
            rw [hinv] at hrun
            obtain ⟨o, t⟩ := out
            have hout : ∀ m ≥ n + 1, invoke m (Instr.arg operands 1) s = some (o, t) :=
              fun m hm => hinvoke n (by omega) _ _ _ hinv m (by omega)
            cases o with
            | error e =>
              refine hend (fun m hm => ?_) (Option.some.inj hrun).symm
              rw [Instr.exec, if_pos rfl, Run.bind_error (hout m hm)]
            | ok result =>
              refine hrest le_rfl next (fun m hm => ?_) hrun
              rw [Instr.exec, if_pos rfl, Run.bind_ok (hout m hm)]
              rfl
        · rw [runFrame_plain lt word not_condition not_loop hrule width spells] at hrun
          cases hplain : Interpreter.plain E opcode (Instr.arg operands) stack s with
          | mk o t =>
            rw [hplain] at hrun
            have hexec : ∀ m, Instr.exec E (invoke m) m (.plain opcode operands) stack s =
                some (o, t) := fun m => by rw [Instr.exec, if_neg hrule, hplain]
            cases o with
            | error e => exact hend (fun m _ => hexec m) (Option.some.inj hrun).symm
            | ok stack' => exact hrest le_rfl next (fun m _ => hexec m) hrun
      | @branch _ _ t f opcode operands held otherwise rest lt word condition width spells t_eq f_eq
          placed_held placed_otherwise next =>
        rw [runFrame_branch lt word condition width spells t_eq f_eq] at hrun
        -- Both blocks are left in the same way.
        have hblock : ∀ {block : Code} {ip' stop' : Nat}, Placed code block ip' stop' →
            (∀ m, Instr.exec E (invoke m) m (.branch opcode operands held otherwise) stack s =
              Instr.execAll E (invoke m) m block stack s) →
            runFrame E n ⟨code, stack, ip', stop',
              (stop, ip + (operands.length + 3) + t + f) :: resume⟩ s = some r →
            ∃ o u, (∀ m ≥ n + 1, Instr.execAll E (invoke m) m
              (.branch opcode operands held otherwise :: rest) stack s = some (o, u)) ∧
              GoesOn E code stop resume (n + 1) r o u := by
          intro block ip' stop' hplaced hsame hrun
          obtain ⟨o, u, hall, hgoes⟩ := ih n (by omega)
            (fun k hk => hinvoke k (by omega)) hplaced _ stack s hrun
          have hexec : ∀ m ≥ n + 1, Instr.exec E (invoke m) m
              (.branch opcode operands held otherwise) stack s = some (o, u) :=
            fun m hm => (hsame m).trans (hall m (by omega))
          cases o with
          | error e => exact hend hexec hgoes
          | ok stack' =>
            obtain ⟨k, hk, hback⟩ := hgoes.leave
            exact hrest (by omega) next hexec hback
        cases hholds : holds E opcode (Instr.arg operands) stack s with
        | true =>
          rw [hholds, if_pos rfl] at hrun
          exact hblock placed_held (fun m => by simp [Instr.exec, hholds]) hrun
        | false =>
          rw [hholds, if_neg Bool.false_ne_true] at hrun
          exact hblock placed_otherwise (fun m => by simp [Instr.exec, hholds]) hrun
      | @loop _ _ b body rest lt word b_eq placed_body next =>
        obtain ⟨o, t, hloop, hgoes⟩ := Instr.repeatWhile_of_runFrame (n := n + 1) lt word b_eq
          (fun k hk stack s hrun => by
            obtain ⟨o, t, hall, hgoes⟩ := ih k hk (fun k' hk' => hinvoke k' (by omega))
              placed_body _ stack s hrun
            exact ⟨o, t, fun m hm => hall m (by omega), hgoes⟩)
          (n + 1) le_rfl stack s hrun
        have hexec : ∀ m ≥ n + 1, Instr.exec E (invoke m) m (.loop body) stack s = some (o, t) :=
          fun m hm => by rw [Instr.exec]; exact hloop m hm m hm
        cases o with
        | error e => exact hend hexec hgoes
        | ok stack' =>
          obtain ⟨k, hk, hrun'⟩ := hgoes
          exact hrest (by omega) next hexec hrun'

/-! ## From structured code to frames -/

namespace Interpreter

/-- A frame comes to another one after some fuel. -/
def Reaches (E : Setting σ) (f : Frame) (s : State σ) (g : Frame) (t : State σ) : Prop :=
  ∃ d, ∀ᶠ m in atTop, runFrame E (m + d) f s = runFrame E m g t

theorem Reaches.refl {f : Frame} : Reaches E f s f s := ⟨0, .of_forall fun _ => rfl⟩

theorem Reaches.trans {f g h : Frame} {s t u : State σ} (hfg : Reaches E f s g t)
    (hgh : Reaches E g t h u) : Reaches E f s h u := by
  obtain ⟨d, hd⟩ := hfg
  obtain ⟨e, he⟩ := hgh
  refine ⟨e + d, ?_⟩
  filter_upwards [(tendsto_add_atTop_nat e).eventually hd, he] with m hm hm'
  rw [← Nat.add_assoc, hm, hm']

/-- A frame reaches the next one by one instruction. -/
theorem Reaches.step {f g : Frame} {t : State σ}
    (h : ∀ n, runFrame E (n + 1) f s = runFrame E n g t) : Reaches E f s g t :=
  ⟨1, .of_forall h⟩

/-- A frame that reaches one with a result has that result. -/
theorem Reaches.ends {f g : Frame} {s t : State σ} {r : Outcome Slot × State σ}
    (h : Reaches E f s g t) (hg : ∀ᶠ m in atTop, runFrame E m g t = some r) :
    ∀ᶠ m in atTop, runFrame E m f s = some r := by
  obtain ⟨d, hd⟩ := h
  obtain ⟨N, hN⟩ := eventually_atTop.mp (hd.and hg)
  refine eventually_atTop.mpr ⟨N + d, fun m hm => ?_⟩
  obtain ⟨m, rfl⟩ := Nat.exists_eq_add_of_le' (Nat.le_trans (Nat.le_add_left d N) hm)
  obtain ⟨h1, h2⟩ := hN m (by omega)
  rw [h1, h2]

/-- How a frame follows the outcome of the structured code in front of it: it comes behind the
words of the code, or the parse ends. -/
def Follows (E : Setting σ) (stop : Nat) (resume : List (Nat × Nat)) (f : Frame) (s : State σ) :
    Outcome (List Slot) → State σ → Prop
  | .ok stack, t => ∃ ip, stop ≤ ip ∧ Reaches E f s ⟨f.code, stack, ip, stop, resume⟩ t
  | .error e, t => ∀ᶠ m in atTop, runFrame E m f s = some (.error e, t)

theorem Follows.of_reaches {stop : Nat} {f g : Frame} {s t u : State σ}
    {o : Outcome (List Slot)} (h : Reaches E f s g t) (hcode : g.code = f.code)
    (hg : Follows E stop resume g t o u) : Follows E stop resume f s o u := by
  cases o with
  | error e => exact h.ends hg
  | ok stack =>
    obtain ⟨ip, hip, hreach⟩ := hg
    exact ⟨ip, hip, h.trans (hcode ▸ hreach)⟩

end Interpreter

variable {invoke : Nat → Run (State σ) Slot} {rounds : Nat}

/-- A frame in front of a loop follows the loop, given that frames in front of the body follow the
body. -/
theorem Instr.follows_repeatWhile {b : Nat} {body : Code} (lt : ip < stop)
    (word : (code[ip]?).bind Opcode.ofWord? = some .whileNotError)
    (b_eq : Instruction.wordAt code (ip + 1) = b)
    (hbody : ∀ stack s o t, execAll E invoke rounds body stack s = some (o, t) →
      Follows E (ip + 2 + b) ((stop, ip) :: resume)
        ⟨code, stack, ip + 2, ip + 2 + b, (stop, ip) :: resume⟩ s o t) :
    ∀ k stack s o t,
      Run.repeatWhile repeats (execAll E invoke rounds body) k stack s = some (o, t) →
      match o with
      | .ok stack' => Reaches E ⟨code, stack, ip, stop, resume⟩ s
          ⟨code, stack', ip + 2 + b, stop, resume⟩ t
      | .error e =>
        ∀ᶠ m in atTop, runFrame E m ⟨code, stack, ip, stop, resume⟩ s = some (.error e, t) := by
  intro k
  induction k with
  | zero => intro stack s o t h; cases h
  | succ k ih =>
    intro stack s o t h
    cases htest : repeats stack s with
    | false =>
      rw [Run.repeatWhile_of_not htest] at h
      cases h
      exact .step fun n => by rw [runFrame_loop lt word b_eq, htest, if_neg Bool.false_ne_true]
    | true =>
      rw [Run.repeatWhile_of_test htest, Run.bind_eq_some] at h
      have henter : Reaches E ⟨code, stack, ip, stop, resume⟩ s
          ⟨code, stack, ip + 2, ip + 2 + b, (stop, ip) :: resume⟩ s :=
        .step fun n => by rw [runFrame_loop lt word b_eq, htest, if_pos rfl]
      rcases h with ⟨stack', s', hexec, hagain⟩ | ⟨e, hexec, rfl⟩
      · obtain ⟨ip', hip', hbehind⟩ := hbody _ _ _ _ hexec
        have hback : Reaches E ⟨code, stack, ip, stop, resume⟩ s
            ⟨code, stack', ip, stop, resume⟩ s' :=
          (henter.trans hbehind).trans (.step fun n => runFrame_leave hip')
        have hloop := ih _ _ _ _ hagain
        cases o with
        | error e => exact hback.ends hloop
        | ok stack'' => exact hback.trans hloop
      · exact henter.ends (hbody _ _ _ _ hexec)

/-- A frame follows the structured code that is placed in front of it, provided that invocations
agree. -/
theorem Placed.follows_exec
    (hinvoke : ∀ i s r, invoke i s = some r → ∀ᶠ m in atTop, runRule E m i s = some r)
    {c : Code} {ip stop : Nat} (hplaced : Placed code c ip stop) :
    ∀ (resume : List (Nat × Nat)) stack s o t,
      Instr.execAll E invoke rounds c stack s = some (o, t) →
      Follows E stop resume ⟨code, stack, ip, stop, resume⟩ s o t := by
  induction hplaced with
  | nil le =>
    intro resume stack s o t h
    cases h
    exact ⟨_, le, .refl⟩
  | @plain ip stop opcode operands rest lt word not_condition not_loop width spells next ih =>
    intro resume stack s o t h
    rw [Instr.execAll, Run.bind_eq_some] at h
    by_cases hrule : opcode = .rule
    · subst hrule
      -- The invocation is reached on all large amounts of fuel, not just by one instruction.
      have hinv : ∀ {o u}, invoke (Instr.arg operands 1) s = some (o, u) →
          ∀ᶠ m in atTop, runFrame E (m + 1) ⟨code, stack, ip, stop, resume⟩ s =
            match o with
            | .ok result =>
              runFrame E m ⟨code, result :: stack, ip + 1 + operands.length, stop, resume⟩ u
            | .error e => some (.error e, u) := by
        intro o u h
        filter_upwards [hinvoke _ _ _ h] with m hm
        rw [runFrame_rule lt word width spells, hm]
        cases o <;> rfl
      rcases h with ⟨stack', s', hexec, hnext⟩ | ⟨e, hexec, rfl⟩
      · rw [Instr.exec, if_pos rfl, Run.bind_eq_some] at hexec
        rcases hexec with ⟨result, s'', hout, hpush⟩ | ⟨e, -, he⟩
        · cases hpush
          exact .of_reaches ⟨1, hinv hout⟩ rfl (ih resume _ _ _ _ hnext)
        · cases he
      · rw [Instr.exec, if_pos rfl, Run.bind_eq_some] at hexec
        rcases hexec with ⟨result, s'', -, hpush⟩ | ⟨e', hout, he⟩
        · cases hpush
        · cases he
          have := hinv hout
          obtain ⟨N, hN⟩ := eventually_atTop.mp this
          refine eventually_atTop.mpr ⟨N + 1, fun m hm => ?_⟩
          obtain ⟨m, rfl⟩ := Nat.exists_eq_add_of_le' (Nat.one_le_of_lt hm)
          exact hN m (by omega)
    · have hstep : ∀ n, runFrame E (n + 1) ⟨code, stack, ip, stop, resume⟩ s = _ := fun n =>
        runFrame_plain lt word not_condition not_loop hrule width spells
      simp only [Instr.exec, if_neg hrule, Option.some.injEq] at h
      rcases h with ⟨stack', s', hplain, hnext⟩ | ⟨e, hplain, rfl⟩
      · have hreach : Reaches E ⟨code, stack, ip, stop, resume⟩ s
            ⟨code, stack', ip + 1 + operands.length, stop, resume⟩ s' :=
          .step fun n => by rw [hstep, hplain]
        exact .of_reaches hreach rfl (ih resume _ _ _ _ hnext)
      · refine eventually_atTop.mpr ⟨1, fun m hm => ?_⟩
        obtain ⟨m, rfl⟩ := Nat.exists_eq_add_of_le' hm
        rw [hstep, hplain]
  | @branch ip stop t' f opcode operands held otherwise rest lt word condition width spells t_eq
      f_eq placed_held placed_otherwise next ih_held ih_otherwise ih =>
    intro resume stack s o t h
    have hstep : ∀ n, runFrame E (n + 1) ⟨code, stack, ip, stop, resume⟩ s = _ := fun n =>
      runFrame_branch lt word condition width spells t_eq f_eq
    -- Both blocks lead behind the condition.
    have hblock : ∀ {block : Code} {ip' stop' : Nat},
        (∀ stack s o t, Instr.execAll E invoke rounds block stack s = some (o, t) →
          Follows E stop' ((stop, ip + (operands.length + 3) + t' + f) :: resume)
            ⟨code, stack, ip', stop', (stop, ip + (operands.length + 3) + t' + f) :: resume⟩ s
            o t) →
        Instr.exec E invoke rounds (.branch opcode operands held otherwise) stack s =
          Instr.execAll E invoke rounds block stack s →
        Reaches E ⟨code, stack, ip, stop, resume⟩ s
          ⟨code, stack, ip', stop', (stop, ip + (operands.length + 3) + t' + f) :: resume⟩ s →
        Follows E stop resume ⟨code, stack, ip, stop, resume⟩ s o t := by
      intro block ip' stop' hfollows hsame henter
      rw [Instr.execAll, Run.bind_eq_some] at h
      rcases h with ⟨stack', s', hexec, hnext⟩ | ⟨e, hexec, rfl⟩
      · obtain ⟨ip'', hip'', hbehind⟩ := hfollows _ _ _ _ (hsame.symm.trans hexec)
        exact .of_reaches ((henter.trans hbehind).trans (.step fun n => runFrame_leave hip'')) rfl
          (ih resume _ _ _ _ hnext)
      · exact henter.ends (hfollows _ _ _ _ (hsame.symm.trans hexec))
    cases hholds : holds E opcode (Instr.arg operands) stack s with
    | true =>
      exact hblock (ih_held _) (by simp [Instr.exec, hholds])
        (.step fun n => by rw [hstep, hholds, if_pos rfl])
    | false =>
      exact hblock (ih_otherwise _) (by simp [Instr.exec, hholds])
        (.step fun n => by rw [hstep, hholds, if_neg Bool.false_ne_true])
  | @loop ip stop b body rest lt word b_eq placed_body next ih_body ih =>
    intro resume stack s o t h
    rw [Instr.execAll, Run.bind_eq_some] at h
    have hloop := Instr.follows_repeatWhile lt word b_eq (ih_body ((stop, ip) :: resume)) rounds
      stack s
    rcases h with ⟨stack', s', hexec, hnext⟩ | ⟨e, hexec, rfl⟩
    · exact .of_reaches (hloop _ _ hexec) rfl (ih resume _ _ _ _ hnext)
    · exact hloop _ _ hexec

/-! ## Rules -/

/-- Lists that are related item by item are related at every index. -/
theorem getElem?_rel {α β : Type} {R : α → β → Prop} {as : List α} {bs : List β}
    (h : List.Forall₂ R as bs) (i : Nat) : Option.Rel R as[i]? bs[i]? := by
  induction h generalizing i with
  | nil => exact .none
  | cons hab _ ih =>
    cases i with
    | zero => exact .some hab
    | succ i => exact ih i

/-- The code of every rule of a program stands for structured code. -/
def Program.LaidOut (p : Program) (codes : List Code) : Prop :=
  ∀ i : Nat, Option.Rel (fun (r : Program.Rule) c => Placed r.code c 0 r.code.size)
    p.rules[i]? codes[i]?

section

variable {codes : List Code} {i : Nat} {r : Outcome Slot × State σ}

/-- A body that ends as machine code ends as structured code. -/
theorem Program.LaidOut.runBody_of_frame (hcodes : E.program.LaidOut codes)
    (hinvoke : ∀ k < n, ∀ i s r, runRule E k i s = some r →
      ∀ m > k, Code.runRule E codes m i s = some r)
    (h : Interpreter.runBody E n i s = some r) :
    ∀ m ≥ n, Code.runBody E codes (Code.runRule E codes m) m i s = some r := by
  intro m hm
  rw [Interpreter.runBody] at h
  rw [Code.runBody]
  cases hrule : E.program.rules[i]? with
  | none =>
    have hcode : codes[i]? = none := by
      have hrel := hcodes i
      rw [hrule] at hrel
      cases hc : codes[i]? with
      | none => rfl
      | some c => rw [hc] at hrel; cases hrel
    rw [hrule] at h
    rw [hcode]
    exact h
  | some rule =>
    have := hcodes i
    rw [hrule] at this h
    cases hc : codes[i]? with
    | none => rw [hc] at this; cases this
    | some c =>
      rw [hc] at this
      cases this with
      | some hplaced =>
        obtain ⟨o, t, hexec, hgoes⟩ := hplaced.exec_of_runFrame hinvoke [] [] s h
        cases o with
        | error e =>
          rw [show r = (.error e, t) from hgoes]
          exact Run.bind_error (hexec m hm)
        | ok stack =>
          obtain ⟨k, -, ip, hip, hend⟩ := hgoes
          cases k with
          | zero => cases hend
          | succ k =>
            rw [runFrame_done hip] at hend
            rw [← Option.some.inj hend]
            exact Run.bind_ok (hexec m hm)

/-- A body that ends as structured code ends as machine code. -/
theorem Program.LaidOut.runBody_of_exec (hcodes : E.program.LaidOut codes)
    {invoke : Nat → Run (State σ) Slot} {rounds : Nat}
    (hinvoke : ∀ i s r, invoke i s = some r → ∀ᶠ m in atTop, runRule E m i s = some r)
    (h : Code.runBody E codes invoke rounds i s = some r) :
    ∀ᶠ m in atTop, Interpreter.runBody E m i s = some r := by
  simp only [Interpreter.runBody]
  rw [Code.runBody] at h
  have hrel := hcodes i
  cases hc : codes[i]? with
  | none =>
    rw [hc] at hrel h
    cases hrule : E.program.rules[i]? with
    | none => exact .of_forall fun m => h
    | some rule => rw [hrule] at hrel; cases hrel
  | some c =>
    rw [hc] at hrel h
    cases hrule : E.program.rules[i]? with
    | none => rw [hrule] at hrel; cases hrel
    | some rule =>
      rw [hrule] at hrel
      cases hrel with
      | some hplaced =>
        rcases Run.bind_eq_some.mp h with ⟨stack, t, hexec, hr⟩ | ⟨e, hexec, he⟩
        · obtain ⟨ip, hip, hreach⟩ := hplaced.follows_exec hinvoke [] [] s _ _ hexec
          refine hreach.ends (eventually_atTop.mpr ⟨1, fun m hm => ?_⟩)
          obtain ⟨m, rfl⟩ := Nat.exists_eq_add_of_le' hm
          rw [runFrame_done hip]
          exact hr
        · have hr : r = (.error e, r.2) := by rw [← he]
          rw [hr]
          exact hplaced.follows_exec hinvoke [] [] s _ _ hexec

/-- An invocation that ends as machine code ends as structured code. -/
theorem Program.LaidOut.runRule_of_frame (hcodes : E.program.LaidOut codes) :
    ∀ (n i : Nat) (s : State σ) (r : Outcome Slot × State σ), runRule E n i s = some r →
      ∀ m > n, Code.runRule E codes m i s = some r := by
  intro n
  induction n using Nat.strong_induction_on with
  | _ n ih =>
    intro i s r h m hm
    obtain ⟨m, rfl⟩ := Nat.exists_eq_add_of_le' (Nat.one_le_of_lt hm)
    exact State.rule_mono
      (fun s r h => hcodes.runBody_of_frame ih h m (by omega)) h

/-- An invocation that ends as structured code ends as machine code. -/
theorem Program.LaidOut.runRule_of_exec (hcodes : E.program.LaidOut codes) :
    ∀ (n i : Nat) (s : State σ) (r : Outcome Slot × State σ), Code.runRule E codes n i s = some r →
      ∀ᶠ m in atTop, runRule E m i s = some r := by
  intro n
  induction n with
  | zero => intro i s r h; cases h
  | succ n ih =>
    intro i s r h
    exact State.eventually_rule (fun s r h => hcodes.runBody_of_exec ih h) h

/-- Invocations end alike as machine code and as structured code. -/
theorem Program.LaidOut.runRule_iff (hcodes : E.program.LaidOut codes) :
    (∃ n, runRule E n i s = some r) ↔ ∃ n, Code.runRule E codes n i s = some r := by
  constructor
  · rintro ⟨n, h⟩
    exact ⟨n + 1, hcodes.runRule_of_frame n i s r h (n + 1) (Nat.lt_succ_self n)⟩
  · rintro ⟨n, h⟩
    exact (hcodes.runRule_of_exec n i s r h).exists

/-- Bodies end alike as machine code and as structured code. -/
theorem Program.LaidOut.runBody_iff (hcodes : E.program.LaidOut codes) :
    (∃ n, Interpreter.runBody E n i s = some r) ↔
      ∃ n, Code.runBody E codes (Code.runRule E codes n) n i s = some r := by
  constructor
  · rintro ⟨n, h⟩
    exact ⟨n, hcodes.runBody_of_frame (fun k _ => hcodes.runRule_of_frame k) h n le_rfl⟩
  · rintro ⟨n, h⟩
    exact (hcodes.runBody_of_exec (hcodes.runRule_of_exec n) h).exists

end

end PegMachine
