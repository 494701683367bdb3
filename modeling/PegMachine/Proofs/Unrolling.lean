import PegMachine.Proofs.Slots

/-!
# Unrolled code

`Unrolls` is the shape of unrolling: which statements structured code becomes at which height.
Statements do to slots what the code does to a stack that the slots mirror, round by round and
invocation by invocation, so both run on the same fuel.
-/

namespace PegMachine

variable {σ : Type} {E : Setting σ}

namespace Routine

/-- Structured code becomes statements, which lead from one height to another and never above a
limit. -/
inductive Unrolls (limit : Nat) : Code → Nat → List Stmt → Nat → Prop
  /-- Nothing is left. -/
  | nil {height : Nat} : Unrolls limit [] height [] height
  /-- An instruction without blocks. -/
  | plain {opcode : Opcode} {operands : List UInt32} {rest : Code} {stmts body : List Stmt}
      {height after last : Nat}
      (stmts_eq : plain? opcode (Instr.arg operands) height = some (stmts, after))
      (le : after ≤ limit) (next : Unrolls limit rest after body last) :
      Unrolls limit (.plain opcode operands :: rest) height (stmts ++ body) last
  /-- A condition, whose blocks lead to the same height. -/
  | branch {opcode : Opcode} {operands : List UInt32} {held otherwise rest : Code} {cond : Cond}
      {then_ else_ body : List Stmt} {height after last : Nat}
      (condition : opcode.isCondition = true)
      (cond_eq : cond? opcode (Instr.arg operands) height = some cond)
      (unrolls_held : Unrolls limit held height then_ after)
      (unrolls_otherwise : Unrolls limit otherwise height else_ after)
      (next : Unrolls limit rest after body last) :
      Unrolls limit (.branch opcode operands held otherwise :: rest) height
        (.branch cond then_ else_ :: body) last
  /-- A loop, whose body leads back to where it began. -/
  | loop {block rest : Code} {inner body : List Stmt} {height top last : Nat}
      (top_eq : slotBelow? height 0 = some top)
      (unrolls_block : Unrolls limit block height inner height)
      (next : Unrolls limit rest height body last) :
      Unrolls limit (.loop block :: rest) height (.loop (.notFailed top) inner :: body) last

/-! ## Slots in bounds -/

/-- Unrolling an instruction touches no slot that is not below the height in front of it or the
height behind it. -/
theorem plain?_indices {opcode : Opcode} {arg : Nat → Nat} {height after : Nat}
    {stmts : List Stmt} (h : plain? opcode arg height = some (stmts, after)) :
    ∀ i ∈ Stmt.indicesAll stmts, i < max height after := by
  cases opcode with
  | push | pushCurrPos | pushUndefined | pushNull | pushFailed | pushEmptyArray | acceptN
  | acceptString | acceptRegexp | fail | rule | updateSavedPos | silentFailsOn | silentFailsOff
  | silentFailsReset =>
    cases h
    simp [Stmt.indicesAll, Stmt.indices, Expr.indices]
  | pop | popN =>
    obtain ⟨rest, -, hpair⟩ := Option.map_eq_some_iff.mp h
    cases hpair
    simp [Stmt.indicesAll]
  | popCurrPos | nip | append | text | loadSavedPos =>
    obtain ⟨slot, hslot, hpair⟩ := Option.map_eq_some_iff.mp h
    obtain ⟨hlt, rfl⟩ := slotBelow?_eq_some.mp hslot
    cases hpair
    simp [Stmt.indicesAll, Stmt.indices, Expr.indices]
    omega
  | wrap =>
    obtain ⟨first, hfirst, hpair⟩ := Option.map_eq_some_iff.mp h
    obtain ⟨hle, rfl⟩ := dropped?_eq_some.mp hfirst
    cases hpair
    intro i hi
    simp only [Stmt.indicesAll, Stmt.indices, Expr.indices, List.append_nil, List.mem_cons,
      List.mem_map, List.mem_range] at hi
    rcases hi with rfl | ⟨k, hk, rfl⟩ <;> omega
  | call =>
    obtain ⟨is, his, hrest⟩ := Option.bind_eq_some_iff.mp h
    obtain ⟨rest, hheight, hpair⟩ := Option.bind_eq_some_iff.mp hrest
    cases hpair
    intro i hi
    simp only [Stmt.indicesAll, Stmt.indices, Expr.indices, List.append_nil, List.mem_cons] at hi
    rcases hi with rfl | hi
    · omega
    · have := lt_of_mem_slotsBelow his i hi
      omega
  | _ => cases h

theorem cond?_indices {opcode : Opcode} {arg : Nat → Nat} {height : Nat} {cond : Cond}
    (h : cond? opcode arg height = some cond) : ∀ i ∈ cond.indices, i < height := by
  cases opcode with
  | matchAny | matchString | matchStringIc | matchRegexp => cases h; nofun
  | _ =>
    obtain ⟨slot, hslot, rfl⟩ := Option.map_eq_some_iff.mp h
    obtain ⟨hlt, rfl⟩ := slotBelow?_eq_some.mp hslot
    simp only [Cond.indices, List.mem_singleton]
    omega

/-- Unrolled code keeps to the slots below the limit. -/
theorem Unrolls.indices_lt {limit : Nat} {code : Code} {height last : Nat} {body : List Stmt}
    (h : Unrolls limit code height body last) (hheight : height ≤ limit) :
    last ≤ limit ∧ ∀ i ∈ Stmt.indicesAll body, i < limit := by
  induction h with
  | nil => exact ⟨hheight, nofun⟩
  | plain stmts_eq le next ih =>
    obtain ⟨hlast, hbody⟩ := ih le
    refine ⟨hlast, fun i hi => ?_⟩
    rw [Stmt.indicesAll_append, List.mem_append] at hi
    rcases hi with hi | hi
    · exact lt_of_lt_of_le (plain?_indices stmts_eq i hi) (max_le hheight le)
    · exact hbody i hi
  | branch condition cond_eq _ _ next ih_held ih_otherwise ih =>
    obtain ⟨hafter, hheld⟩ := ih_held hheight
    obtain ⟨hlast, hbody⟩ := ih hafter
    refine ⟨hlast, fun i hi => ?_⟩
    simp only [Stmt.indicesAll, Stmt.indices, List.mem_append] at hi
    rcases hi with (hi | hi | hi) | hi
    · exact lt_of_lt_of_le (cond?_indices cond_eq i hi) hheight
    · exact hheld i hi
    · exact (ih_otherwise hheight).2 i hi
    · exact hbody i hi
  | loop top_eq _ next ih_block ih =>
    obtain ⟨hlast, hbody⟩ := ih hheight
    refine ⟨hlast, fun i hi => ?_⟩
    simp only [Stmt.indicesAll, Stmt.indices, Cond.indices, List.mem_append,
      List.mem_singleton] at hi
    rcases hi with (rfl | hi) | hi
    · obtain ⟨hlt, rfl⟩ := slotBelow?_eq_some.mp top_eq
      omega
    · exact (ih_block hheight).2 i hi
    · exact hbody i hi

/-! ## Agreement -/

/-- A run over slots agrees with a run over a stack of some height in the end. -/
inductive Agrees (height size : Nat) :
    Option (Outcome (List Slot) × State σ) → Option (Outcome (Array Slot) × State σ) → Prop
  /-- Neither ends. -/
  | forever : Agrees height size none none
  /-- Both end the parse. -/
  | error {e : ParseFailure} {s : State σ} :
      Agrees height size (some (.error e, s)) (some (.error e, s))
  /-- The slots mirror the stack. -/
  | ok {stack : List Slot} {slots : Array Slot} {s : State σ} (length_eq : stack.length = height)
      (size_eq : slots.size = size) (mirrors : Mirrors stack slots) :
      Agrees height size (some (.ok stack, s)) (some (.ok slots, s))

theorem Agrees.bind {h h' size : Nat} {x : Run (State σ) (List Slot)}
    {y : Run (State σ) (Array Slot)} {f : List Slot → Run (State σ) (List Slot)}
    {g : Array Slot → Run (State σ) (Array Slot)} {s : State σ} (hxy : Agrees h size (x s) (y s))
    (hfg : ∀ stack slots t, stack.length = h → slots.size = size → Mirrors stack slots →
      Agrees h' size (f stack t) (g slots t)) :
    Agrees h' size ((x >>= f) s) ((y >>= g) s) := by
  rw [Run.bind_apply, Run.bind_apply]
  generalize x s = a at hxy ⊢
  generalize y s = b at hxy ⊢
  cases hxy with
  | forever => exact .forever
  | error => exact .error
  | ok hlength hsize hmirrors => exact hfg _ _ _ hlength hsize hmirrors

theorem execAll_append {invoke : Nat → Run (State σ) Slot} {rounds : Nat} (a b : List Stmt)
    (slots : Array Slot) :
    execAll E invoke rounds (a ++ b) slots =
      execAll E invoke rounds a slots >>= execAll E invoke rounds b := by
  induction a generalizing slots with
  | nil => rw [List.nil_append, execAll, pure_bind]
  | cons stmt rest ih =>
    rw [List.cons_append, execAll, execAll, bind_assoc]
    congr
    funext slots
    exact ih slots

theorem execAll_singleton {invoke : Nat → Run (State σ) Slot} {rounds : Nat} (stmt : Stmt)
    (slots : Array Slot) :
    execAll E invoke rounds [stmt] slots = exec E invoke rounds stmt slots := by
  rw [execAll]
  exact bind_pure _

/-- A condition over slots holds if the condition over the stack does. -/
theorem Mirrors.holds {stack : List Slot} {slots : Array Slot} (h : Mirrors stack slots)
    {opcode : Opcode} {arg : Nat → Nat} {cond : Cond} (s : State σ)
    (hcond : opcode.isCondition = true) (heq : cond? opcode arg stack.length = some cond) :
    cond.holds E slots s = Interpreter.holds E opcode arg stack s := by
  have htop : ∀ {i}, slotBelow? stack.length 0 = some i → slot slots i = stack.headD .failed := by
    intro i hi
    rw [h.slotBelow hi]
    cases stack <;> rfl
  cases opcode with
  | ifTruthy | ifError | ifArrlenMin | ifArrlenMax | ifNotError =>
    obtain ⟨i, hi, rfl⟩ := Option.map_eq_some_iff.mp heq
    simp only [Cond.holds, Interpreter.holds, htop hi]
  | matchAny | matchString | matchStringIc | matchRegexp => cases heq; rfl
  | _ => cases hcond

variable {invoke : Nat → Run (State σ) Slot} {rounds : Nat} {stack : List Slot}
  {slots : Array Slot} {s t : State σ}

/-- A push agrees with an assignment to the slot above the top. -/
theorem Mirrors.agrees_push (h : Mirrors stack slots) {i size : Nat} (hi : stack.length = i)
    (hsize : slots.size = size) (hlt : i < size) (v : Slot) :
    Agrees (i + 1) size (some (.ok (v :: stack), s))
      (some (.ok (slots.setIfInBounds i v), s)) := by
  subst hi hsize
  exact .ok rfl (by simp) (h.push hlt v)

theorem exec_assign {target : Nat} {value : Expr} (hcall : ∀ action args, value ≠ .call action args)
    (hrule : ∀ index, value ≠ .rule index) :
    exec E invoke rounds (.assign target value) slots s =
      some (.ok ((value.simple E slots s).2.1.setIfInBounds target (value.simple E slots s).1),
        (value.simple E slots s).2.2) := by
  rw [exec]
  · exact hcall
  · exact hrule

theorem exists_cons_cons (h : 1 < stack.length) : ∃ v w rest, stack = v :: w :: rest := by
  obtain _ | ⟨v, _ | ⟨w, rest⟩⟩ := stack
  · cases h
  · simp at h
  · exact ⟨v, w, rest, rfl⟩

/-- An instruction without blocks agrees with its statements. -/
theorem Mirrors.agrees_plain (h : Mirrors stack slots) {opcode : Opcode} {arg : Nat → Nat}
    {stmts : List Stmt} {after : Nat} (hrule : opcode ≠ .rule)
    (heq : plain? opcode arg stack.length = some (stmts, after)) (hle : after ≤ slots.size) :
    Agrees after slots.size (some (Interpreter.plain E opcode arg stack s))
      (execAll E invoke rounds stmts slots s) := by
  cases opcode with
  | rule => exact absurd rfl hrule
  | push | pushCurrPos | pushUndefined | pushNull | pushFailed | pushEmptyArray | acceptN
  | acceptString | acceptRegexp | fail =>
    cases heq
    rw [execAll_singleton]
    exact h.agrees_push rfl rfl hle _
  | updateSavedPos | silentFailsOn | silentFailsOff | silentFailsReset =>
    cases heq
    rw [execAll_singleton]
    exact .ok rfl rfl h
  | pop =>
    obtain ⟨height, hheight, hpair⟩ := Option.map_eq_some_iff.mp heq
    obtain ⟨-, rfl⟩ := dropped?_eq_some.mp hheight
    cases hpair
    exact .ok List.length_tail rfl (by simpa using h.drop 1)
  | popN =>
    obtain ⟨height, hheight, hpair⟩ := Option.map_eq_some_iff.mp heq
    obtain ⟨-, rfl⟩ := dropped?_eq_some.mp hheight
    cases hpair
    exact .ok List.length_drop rfl (h.drop _)
  | popCurrPos =>
    obtain ⟨i, hi, hpair⟩ := Option.map_eq_some_iff.mp heq
    cases hpair
    have hv := h.slotBelow hi
    obtain ⟨hpos, rfl⟩ := slotBelow?_eq_some.mp hi
    obtain ⟨v, rest, rfl⟩ := List.exists_cons_of_length_pos hpos
    rw [execAll_singleton, exec, hv]
    exact .ok (by simp) rfl (h.drop 1)
  | nip =>
    obtain ⟨below, hbelow, hpair⟩ := Option.map_eq_some_iff.mp heq
    cases hpair
    obtain ⟨hlt, rfl⟩ := slotBelow?_eq_some.mp hbelow
    obtain ⟨v, w, rest, rfl⟩ := exists_cons_cons hlt
    have hv : slot slots (rest.length + 1) = v := h.2 0 (by simp)
    have hrest : Mirrors rest (slots.setIfInBounds (rest.length + 1) .failed) :=
      (h.drop 2).set_above (Nat.le_succ _) _
    rw [execAll_singleton, exec_assign (by simp) (by simp)]
    change Agrees _ _ (some (.ok (v :: rest), s))
      (some (.ok ((slots.setIfInBounds (rest.length + 1) .failed).setIfInBounds rest.length
        (slot slots (rest.length + 1))), s))
    rw [hv]
    exact hrest.agrees_push rfl (by simp) hle _
  | append =>
    obtain ⟨below, hbelow, hpair⟩ := Option.map_eq_some_iff.mp heq
    cases hpair
    obtain ⟨hlt, rfl⟩ := slotBelow?_eq_some.mp hbelow
    obtain ⟨v, w, rest, rfl⟩ := exists_cons_cons hlt
    have hv : slot slots (rest.length + 1) = v := h.2 0 (by simp)
    have hw : slot (slots.setIfInBounds (rest.length + 1) .failed) rest.length = w := by
      rw [slot_setIfInBounds_ne (Nat.succ_ne_self _)]
      exact h.2 1 (by simp)
    have hrest : Mirrors rest (slots.setIfInBounds (rest.length + 1) .failed) :=
      (h.drop 2).set_above (Nat.le_succ _) _
    rw [execAll_singleton]
    change Agrees _ _ (some (.ok (w.push v :: rest), s))
      (some (.ok ((slots.setIfInBounds (rest.length + 1) .failed).setIfInBounds rest.length
        ((slot (slots.setIfInBounds (rest.length + 1) .failed) rest.length).push
          (slot slots (rest.length + 1)))), s))
    rw [hv, hw]
    exact hrest.agrees_push rfl (by simp) hle _
  | wrap =>
    obtain ⟨first, hfirst, hpair⟩ := Option.map_eq_some_iff.mp heq
    cases hpair
    obtain ⟨hn, rfl⟩ := dropped?_eq_some.mp hfirst
    have hslots := h.topmost hn
    rw [execAll_singleton, exec_assign (by simp) (by simp)]
    simp only [Expr.simple, hslots]
    exact ((h.drop (arg 1)).clear (by simp) _).agrees_push (by simp) (size_clear _ _ _) hle _
  | text =>
    obtain ⟨i, hi, hpair⟩ := Option.map_eq_some_iff.mp heq
    cases hpair
    have hv := h.slotBelow hi
    obtain ⟨hpos, rfl⟩ := slotBelow?_eq_some.mp hi
    obtain ⟨v, rest, rfl⟩ := List.exists_cons_of_length_pos hpos
    rw [execAll_singleton, exec_assign (by simp) (by simp)]
    simp only [Expr.simple, hv]
    exact Mirrors.agrees_push (h.drop 1) (by simp) rfl hle _
  | loadSavedPos =>
    obtain ⟨i, hi, hpair⟩ := Option.map_eq_some_iff.mp heq
    cases hpair
    rw [execAll_singleton, exec, h.slotBelow hi]
    exact .ok rfl rfl h
  | call =>
    obtain ⟨is, his, hrest⟩ := Option.bind_eq_some_iff.mp heq
    obtain ⟨height, hheight, hpair⟩ := Option.bind_eq_some_iff.mp hrest
    cases hpair
    obtain ⟨hn, rfl⟩ := dropped?_eq_some.mp hheight
    have hargs : is.map (fun i => (slot slots i).toValue) =
        (List.range (arg 3)).map fun i => (stack.getD (arg (4 + i)) .failed).toValue := by
      have := congrArg (List.map Slot.toValue) (h.slotsBelow his)
      simpa [Function.comp_def] using this
    rw [execAll_singleton, exec, hargs]
    simp only [Interpreter.plain]
    rcases State.call E s (arg 1) _ with ⟨e | v, t⟩
    · exact .error
    · exact (h.drop (arg 2)).agrees_push List.length_drop rfl hle _
  | _ => cases heq

/-- Structured code agrees with the statements that it becomes, on the same fuel. -/
theorem Unrolls.agrees {limit : Nat} {code : Code} {height last : Nat} {body : List Stmt}
    (h : Unrolls limit code height body last) :
    ∀ {stack : List Slot} {slots : Array Slot} (s : State σ), stack.length = height →
      limit ≤ slots.size → Mirrors stack slots →
      Agrees last slots.size (Instr.execAll E invoke rounds code stack s)
        (execAll E invoke rounds body slots s) := by
  induction h with
  | nil =>
    intro stack slots s hlength hlimit hmirrors
    exact .ok hlength rfl hmirrors
  | @plain opcode operands rest stmts body height after last stmts_eq le next ih =>
    intro stack slots s hlength hlimit hmirrors
    subst hlength
    rw [Instr.execAll, execAll_append]
    have hrest : ∀ stack' slots' t, stack'.length = after → slots'.size = slots.size →
        Mirrors stack' slots' → Agrees last slots.size
          (Instr.execAll E invoke rounds rest stack' t) (execAll E invoke rounds body slots' t) :=
      fun stack' slots' t hlength hsize hmirrors =>
        hsize ▸ ih t hlength (hsize ▸ hlimit) hmirrors
    by_cases hrule : opcode = .rule
    · subst hrule
      cases stmts_eq
      refine Agrees.bind ?_ hrest
      rw [Instr.exec, if_pos rfl, execAll_singleton, exec, Run.bind_apply, Run.bind_apply]
      rcases invoke (Instr.arg operands 1) s with - | ⟨e | v, t⟩
      · exact .forever
      · exact .error
      · exact hmirrors.agrees_push rfl rfl (by omega) v
    · refine Agrees.bind ?_ hrest
      rw [Instr.exec, if_neg hrule]
      exact hmirrors.agrees_plain hrule stmts_eq (le.trans hlimit)
  | @branch opcode operands held otherwise rest cond then_ else_ body height after last condition
      cond_eq unrolls_held unrolls_otherwise next ih_held ih_otherwise ih =>
    intro stack slots s hlength hlimit hmirrors
    subst hlength
    rw [Instr.execAll, execAll]
    refine Agrees.bind (h := after) ?_ fun stack' slots' t hlength hsize hmirrors =>
      hsize ▸ ih t hlength (hsize ▸ hlimit) hmirrors
    rw [Instr.exec, exec]
    simp only [hmirrors.holds s condition cond_eq]
    split
    · exact ih_held s rfl hlimit hmirrors
    · exact ih_otherwise s rfl hlimit hmirrors
  | @loop block rest inner body height top last top_eq unrolls_block next ih_block ih =>
    intro stack slots s hlength hlimit hmirrors
    rw [Instr.execAll, execAll]
    refine Agrees.bind (h := height) ?_ fun stack' slots' t hlength hsize hmirrors =>
      hsize ▸ ih t hlength (hsize ▸ hlimit) hmirrors
    rw [Instr.exec, exec]
    -- The rounds are counted down; the body is always given all of them.
    suffices ∀ k stack' slots' t, stack'.length = height → slots'.size = slots.size →
        Mirrors stack' slots' → Agrees height slots.size
          (Run.repeatWhile Instr.repeats (Instr.execAll E invoke rounds block) k stack' t)
          (Run.repeatWhile ((Cond.notFailed top).holds E)
            (execAll E invoke rounds inner) k slots' t) from
      this rounds stack slots s hlength rfl hmirrors
    intro k
    induction k with
    | zero => intros; exact .forever
    | succ k ihk =>
      intro stack' slots' t hlength hsize hmirrors
      have htest : (Cond.notFailed top).holds E slots' t = Instr.repeats stack' t := by
        have hv := hmirrors.slotBelow (hlength ▸ top_eq)
        simp only [Cond.holds, Instr.repeats, hv]
        cases stack' <;> rfl
      cases hgo : Instr.repeats stack' t with
      | false =>
        rw [Run.repeatWhile_of_not hgo, Run.repeatWhile_of_not (htest.trans hgo)]
        exact .ok hlength hsize hmirrors
      | true =>
        rw [Run.repeatWhile_of_test hgo, Run.repeatWhile_of_test (htest.trans hgo)]
        exact Agrees.bind (hsize ▸ ih_block t hlength (hsize ▸ hlimit) hmirrors) ihk

end Routine

end PegMachine
