import PegMachine.Proofs.Correctness
import PegMachine.Proofs.Recall
import PegMachine.Proofs.TypedCode

/-!
# Machine code is safe

The interpreter is lenient: it skips words that are no opcodes and takes what is missing on the
stack for a failure. Generated code never makes use of that. In every frame that occurs in the
course of a parse, the instruction that is next finds everything it reads on the stack of the frame,
and in the kind that it asks for. So no saved offset and no mark of a failure gets into a list or is
handed to an action as a value.

The code in front of a frame is typed, and so is the code to which the blocks around it lead back.
Every step of a frame keeps that, and every rule gives a result, be it recalled or not.
-/

namespace PegMachine

/-! ## What instructions read -/

/-- An instruction finds what it reads on a stack. -/
def Opcode.Finds (arg : Nat → Nat) (stack : List Slot) : Opcode → Prop
  | .pop | .ifTruthy | .ifError | .ifNotError | .whileNotError => stack ≠ []
  | .popN => arg 1 ≤ stack.length
  | .nip => 2 ≤ stack.length
  | .popCurrPos | .text => ∃ p rest, stack = .pos p :: rest
  | .ifArrlenMin | .ifArrlenMax => ∃ items rest, stack = .value (.array items) :: rest
  | .append => ∃ v items rest, stack = .value v :: .value (.array items) :: rest
  | .wrap => arg 1 ≤ stack.length ∧ ∀ slot ∈ stack.take (arg 1), ∃ v, slot = .value v
  | .loadSavedPos => ∃ p, stack[arg 1]? = some (.pos p)
  | .call => arg 2 ≤ stack.length ∧ ∀ i < arg 3, ∃ v, stack[arg (4 + i)]? = some (.value v)
  | _ => True

namespace Kinds.Hold

variable {k k' : Kind} {kinds : Kinds} {stack : List Slot}

theorem cons_eq (h : Kinds.Hold (k :: kinds) stack) :
    ∃ v rest, stack = v :: rest ∧ v.Is k ∧ kinds.Hold rest := by
  cases h with
  | cons hv hrest => exact ⟨_, _, rfl, hv, hrest⟩

theorem pos_cons_eq (h : Kinds.Hold (.pos :: kinds) stack) : ∃ p rest, stack = .pos p :: rest := by
  obtain ⟨v, rest, rfl, hv, -⟩ := h.cons_eq
  cases hv with
  | pos p => exact ⟨p, rest, rfl⟩

theorem array_cons_eq (h : Kinds.Hold (.array :: kinds) stack) :
    ∃ items rest, stack = .value (.array items) :: rest := by
  obtain ⟨v, rest, rfl, hv, -⟩ := h.cons_eq
  cases hv with
  | array items => exact ⟨items, rest, rfl⟩

theorem value_cons_eq (h : Kinds.Hold (.value :: kinds) stack) :
    ∃ v rest, stack = .value v :: rest ∧ kinds.Hold rest := by
  obtain ⟨v, rest, rfl, hv, hrest⟩ := h.cons_eq
  cases hv with
  | value v => exact ⟨v, rest, rfl, hrest⟩

theorem tail (h : kinds.Hold stack) : Hold kinds.tail stack.tail := by
  cases h with
  | nil => exact .nil
  | cons _ hrest => exact hrest

theorem ne_nil (h : Kinds.Hold (k :: kinds) stack) : stack ≠ [] := by
  obtain ⟨v, rest, rfl, -⟩ := h.cons_eq
  exact List.cons_ne_nil v rest

/-- Entries that are known to be values. -/
theorem values (h : kinds.Hold stack) {n : Nat} (hn : ∀ k ∈ kinds.take n, k = .value) :
    ∀ slot ∈ stack.take n, ∃ v, slot = .value v := by
  induction h generalizing n with
  | nil => simp
  | @cons slot k stack kinds hv _ ih =>
    cases n with
    | zero => simp
    | succ n =>
      rw [List.take_succ_cons, List.forall_mem_cons] at hn ⊢
      obtain ⟨rfl, hn⟩ := hn
      refine ⟨?_, ih hn⟩
      cases hv with
      | value v => exact ⟨v, rfl⟩

theorem value_at (h : kinds.Hold stack) {i : Nat} (hi : kinds[i]? = some .value) :
    ∃ v, stack[i]? = some (.value v) := by
  obtain ⟨v, hv, hkind⟩ := h.getElem? hi
  cases hkind with
  | value v => exact ⟨v, hv⟩

end Kinds.Hold

namespace Opcode

variable {arg : Nat → Nat} {opcode : Opcode} {kinds kinds' kinds_held kinds_otherwise : Kinds}
  {stack : List Slot}

theorem Takes.finds (h : opcode.Takes arg kinds kinds') (hstack : kinds.Hold stack) :
    opcode.Finds arg stack := by
  cases h with
  | pop => exact hstack.ne_nil
  | popN enough => exact enough.trans_eq hstack.length_eq.symm
  | popCurrPos => exact hstack.pos_cons_eq
  | nip =>
    obtain ⟨_, _, rfl, -, hrest⟩ := hstack.cons_eq
    obtain ⟨_, _, rfl, -⟩ := hrest.cons_eq
    simp [Finds]
  | append =>
    obtain ⟨v, _, rfl, hrest⟩ := hstack.value_cons_eq
    obtain ⟨items, rest, rfl⟩ := hrest.array_cons_eq
    exact ⟨v, items, rest, rfl⟩
  | wrap enough values => exact ⟨enough.trans_eq hstack.length_eq.symm, hstack.values values⟩
  | text => exact hstack.pos_cons_eq
  | loadSavedPos saved =>
    obtain ⟨_, hv, ⟨p⟩⟩ := hstack.getElem? saved
    exact ⟨p, hv⟩
  | call enough values =>
    exact ⟨enough.trans_eq hstack.length_eq.symm, fun i hi => hstack.value_at (values i hi)⟩
  | _ => trivial

theorem Splits.finds (h : opcode.Splits kinds kinds_held kinds_otherwise)
    (hstack : kinds.Hold stack) : opcode.Finds arg stack := by
  cases h with
  | ifTruthy | ifError | ifNotError => exact hstack.ne_nil
  | ifArrlenMin | ifArrlenMax => exact hstack.array_cons_eq
  | _ => trivial

theorem finds_congr {a b : Nat → Nat} (h : ∀ i < opcode.width a, a (i + 1) = b (i + 1)) :
    opcode.Finds a stack ↔ opcode.Finds b stack := by
  cases opcode with
  | call =>
    have hwidth : Opcode.call.width a = 3 + a 3 := by simp [Opcode.width]
    rw [hwidth] at h
    have h2 : a 2 = b 2 := h 1 (by omega)
    have h3 : a 3 = b 3 := h 2 (by omega)
    simp only [Finds, h2, h3]
    refine and_congr_right fun _ => forall₂_congr fun i hi => ?_
    rw [show 4 + i = (3 + i) + 1 by omega, h (3 + i) (by omega)]
  | popN | wrap | loadSavedPos =>
    have h1 : a 1 = b 1 := h 0 (by simp [Opcode.width])
    simp only [Finds, h1]
  | _ => rfl

end Opcode

/-! ## What instructions leave -/

section

variable {σ : Type} {E : Setting σ} {s s' : State σ} {index : Nat} {args : List Value}

namespace State

theorem memo_restorePos (slot : Slot) : (s.restorePos slot).memo = s.memo := by
  unfold restorePos
  split <;> rfl

theorem memo_loadSavedPos (slot : Slot) : (s.loadSavedPos slot).memo = s.memo := by
  unfold loadSavedPos
  split <;> rfl

theorem memo_countCurrent (f : RuleCounters → RuleCounters) :
    (s.countCurrent f).memo = s.memo := by
  unfold countCurrent
  split <;> rfl

theorem memo_report (e : Expectation) : (s.report e).memo = s.memo := by
  unfold report
  dsimp only
  split
  · rfl
  · split <;> rfl

theorem memo_failFor (e : Expectation) : (s.failFor e).memo = s.memo := by
  unfold failFor
  dsimp only
  split
  · exact memo_countCurrent _
  · exact (memo_report e).trans (memo_countCurrent _)

theorem memo_fail (c : Nat) : (s.fail E c).2.memo = s.memo := by
  unfold fail
  split
  · exact memo_failFor _
  · exact memo_countCurrent _

theorem memo_trace (kind : TraceEvent.Kind) (rule start stop : Nat) (result : Option Slot) :
    (s.trace E kind rule start stop result).memo = s.memo := by
  unfold trace
  split <;> rfl

theorem memo_call : (s.call E index args).2.memo = s.memo := by
  unfold call
  split
  · rfl
  · unfold perform
    dsimp only
    split <;> rfl

/-- An action answers with a value or withdraws the match, unless it ends the parse. -/
theorem is_result_of_call {v : Slot} (h : (s.call E index args).1 = .ok v) : v.Is .result := by
  unfold call at h
  split at h
  · cases h
  · unfold perform at h
    dsimp only at h
    split at h
    · cases h
      exact .success _
    · cases h
      exact .failure
    all_goals cases h

end State

namespace Interpreter

variable {arg : Nat → Nat} {opcode : Opcode} {kinds kinds' kinds_held kinds_otherwise : Kinds}
  {stack stack' : List Slot}

theorem plain_call : plain E .call arg stack s =
    let r := s.call E (arg 1)
      ((List.range (arg 3)).map fun i => (stack.getD (arg (4 + i)) .failed).toValue)
    (r.1.map (· :: stack.drop (arg 2)), r.2) := by
  dsimp only [plain]
  rcases s.call E (arg 1) _ with ⟨_ | _, _⟩ <;> rfl

/-- Only invocations of rules change the memo table. -/
theorem memo_plain : (plain E opcode arg stack s).2.memo = s.memo := by
  cases opcode with
  | popCurrPos => exact s.memo_restorePos _
  | loadSavedPos => exact s.memo_loadSavedPos _
  | fail => exact s.memo_fail _
  | pushFailed => exact s.memo_countCurrent _
  | call =>
    rw [plain_call]
    exact s.memo_call
  | _ => rfl

/-- An instruction without blocks leaves what it takes a stack to. -/
theorem holds_of_plain (h : opcode.Takes arg kinds kinds') (hrule : opcode ≠ .rule)
    (hstack : kinds.Hold stack) (hplain : (plain E opcode arg stack s).1 = .ok stack') :
    kinds'.Hold stack' := by
  cases h with
  | rule => exact absurd rfl hrule
  | push | pushUndefined | pushNull | acceptN | acceptString | acceptRegexp =>
    cases hplain
    exact .cons (.value _) hstack
  | pushCurrPos =>
    cases hplain
    exact .cons (.pos _) hstack
  | pushEmptyArray =>
    cases hplain
    exact .cons (.array _) hstack
  | pushFailed =>
    cases hplain
    exact .cons .failed hstack
  | fail =>
    have hfailed : (s.fail E (arg 1)).1 = .failed := by
      unfold State.fail
      split <;> rfl
    cases hplain
    exact .cons (hfailed ▸ .failed) hstack
  | pop | popCurrPos =>
    cases hplain
    exact hstack.tail
  | popN =>
    cases hplain
    exact hstack.drop _
  | nip =>
    obtain ⟨v, _, rfl, hv, hrest⟩ := hstack.cons_eq
    cases hplain
    exact .cons hv (hrest.drop 1)
  | append =>
    obtain ⟨v, _, rfl, hrest⟩ := hstack.value_cons_eq
    obtain ⟨items, rest, rfl⟩ := hrest.array_cons_eq
    cases hplain
    exact .cons (.array _) hrest.tail
  | wrap =>
    cases hplain
    exact .cons (.value _) (hstack.drop _)
  | text =>
    cases hplain
    exact .cons (.value _) hstack.tail
  | loadSavedPos | updateSavedPos | silentFailsOn | silentFailsOff =>
    cases hplain
    exact hstack
  | call =>
    rw [plain_call] at hplain
    dsimp only at hplain
    cases hcall : (s.call E (arg 1) ((List.range (arg 3)).map fun i =>
        (stack.getD (arg (4 + i)) .failed).toValue)).1 with
    | error e =>
      rw [hcall] at hplain
      cases hplain
    | ok v =>
      rw [hcall] at hplain
      cases hplain
      exact .cons (State.is_result_of_call hcall) (hstack.drop _)

/-- The block that a condition leads to begins with what is then known of the stack. -/
theorem holds_of_holds (h : opcode.Splits kinds kinds_held kinds_otherwise)
    (hstack : kinds.Hold stack) :
    if holds E opcode arg stack s then kinds_held.Hold stack else kinds_otherwise.Hold stack := by
  cases h with
  | ifError =>
    obtain ⟨v, rest, rfl, hv, hrest⟩ := hstack.cons_eq
    cases hv with
    | failure => exact .cons .failed hrest
    | success v => exact .cons (.value v) hrest
  | ifNotError =>
    obtain ⟨v, rest, rfl, hv, hrest⟩ := hstack.cons_eq
    cases hv with
    | failure => exact .cons .failed hrest
    | success v => exact .cons (.value v) hrest
  | _ => exact (ite_self _).mpr hstack

end Interpreter

end

/-! ## Frames -/

/-- The instruction that is next in a frame finds what it reads, and refers to what the program has.
At the end of the code only a result is left. -/
structure Frame.Proper (P : Program) (f : Frame) : Prop where
  finds : f.ip < f.stop → ∃ opcode, f.code[f.ip]?.bind Opcode.ofWord? = some opcode ∧
    opcode.Finds f.operand f.stack ∧ P.Refers f.operand opcode
  ends : f.stop ≤ f.ip → f.resume = [] → ∃ v : Slot, f.stack = [v] ∧ v.Is .result

/-- The code around the blocks that were entered takes the stack that is left by the innermost one
to a result. -/
inductive Resumes (P : Program) (code : Array UInt32) : List (Nat × Nat) → Kinds → Prop
  /-- No block was entered. -/
  | nil : Resumes P code [] [.result]
  /-- Behind the block goes on the code around it. -/
  | cons {stop ip : Nat} {resume : List (Nat × Nat)} {c : Code} {n n' : Nat} {kinds kinds' : Kinds}
      (placed : Placed code c ip stop) (typed : c.Typed P n kinds n' kinds')
      (outer : Resumes P code resume kinds') : Resumes P code ((stop, ip) :: resume) kinds

/-- The code in front of a frame takes the stack of the frame to a result. -/
def Frame.Typed (P : Program) (f : Frame) : Prop :=
  ∃ c n n' kinds kinds', Placed f.code c f.ip f.stop ∧ c.Typed P n kinds n' kinds' ∧
    kinds.Hold f.stack ∧ Resumes P f.code f.resume kinds'

/-- What an instruction refers to is in its operands, those that are lengths of blocks left out. -/
theorem Program.refers_congr {P : Program} {opcode : Opcode} {a b : Nat → Nat} {n : Nat}
    (hn : opcode.width a = n ∨ opcode.isCondition = true ∧ opcode.operands = n + 2)
    (h : ∀ i < n, a (i + 1) = b (i + 1)) : P.Refers a opcode ↔ P.Refers b opcode := by
  cases opcode with
  | push | matchString | matchStringIc | acceptString | matchRegexp | acceptRegexp | fail | rule =>
    have h1 : a 1 = b 1 := h 0 (by simp [Opcode.width] at hn; omega)
    simp only [Refers, h1]
  | call =>
    have hwidth : 3 + a 3 = n := by simpa [Opcode.width] using hn
    have h1 : a 1 = b 1 := h 0 (by omega)
    have h3 : a 3 = b 3 := h 2 (by omega)
    simp only [Refers, h1, h3]
  | _ => rfl

section

variable {P : Program} {code : Array UInt32} {c : Code} {ip stop n n' : Nat}
  {resume : List (Nat × Nat)} {kinds kinds' : Kinds} {stack : List Slot}

theorem Code.Typed.proper (h : c.Typed P n kinds n' kinds') (hplaced : Placed code c ip stop)
    (hstack : kinds.Hold stack) (hresume : Resumes P code resume kinds') :
    Frame.Proper P ⟨code, stack, ip, stop, resume⟩ := by
  induction h with
  | nil =>
    cases hplaced with
    | nil le =>
      refine ⟨fun hlt => absurd le (Nat.not_le_of_lt hlt), fun _ hnil => ?_⟩
      cases (hnil : resume = [])
      cases hresume
      obtain ⟨v, rest, rfl, hv, hrest⟩ := hstack.cons_eq
      cases hrest
      exact ⟨v, rfl, hv⟩
  | forget hle _ ih => exact ih hplaced (hstack.le hle) hresume
  | @plain opcode operands _ _ _ _ _ _ _ hfits htakes hrefers _ _ _ =>
    cases hplaced with
    | plain lt word not_condition _ width spells _ =>
      have hargs : ∀ i < opcode.width (fun i => Instruction.wordAt code (ip + i)),
          Instruction.wordAt code (ip + (i + 1)) = Instr.arg operands (i + 1) :=
        fun i hi => (spells i (width ▸ hi)).symm
      refine ⟨fun _ => ⟨opcode, word, ?_, ?_⟩, fun hle => absurd lt (Nat.not_lt_of_le hle)⟩
      · exact (Opcode.finds_congr hargs).mpr (htakes.finds hstack)
      · exact (Program.refers_congr (.inl rfl) hargs).mpr hrefers
  | @branch opcode operands _ _ _ _ _ _ _ _ _ _ hsplits hwidth hrefers _ _ _ _ _ _ =>
    cases hplaced with
    | branch lt word condition _ spells _ _ _ _ _ =>
      refine ⟨fun _ => ⟨opcode, word, hsplits.finds hstack, ?_⟩,
        fun hle => absurd lt (Nat.not_lt_of_le hle)⟩
      exact (Program.refers_congr (.inr ⟨condition, hwidth⟩)
        fun i hi => (spells i hi).symm).mpr hrefers
  | loop =>
    cases hplaced with
    | loop lt word _ _ _ =>
      exact ⟨fun _ => ⟨_, word, hstack.ne_nil, trivial⟩,
        fun hle => absurd lt (Nat.not_lt_of_le hle)⟩

variable {σ : Type} {E : Setting σ} {s t : State σ}

/-- Every entry of the memo table has a result. -/
def State.KeepsResults (s : State σ) : Prop :=
  ∀ T, s.memo = some T → ∀ e ∈ T.entries, e.result.Is .result

theorem State.KeepsResults.of_memo_eq (h : s.KeepsResults) (hmemo : t.memo = s.memo) :
    t.KeepsResults := by
  intro T hT
  rw [hmemo] at hT
  exact h T hT

/-- What a step leads to is typed: a frame, also after an invocation that gives a result, or a
result. -/
def Step.Typed (P : Program) : Step σ → Prop
  | .next f s => f.Typed P ∧ s.KeepsResults
  | .invoke _ f s =>
    (∀ v : Slot, v.Is .result → Frame.Typed P { f with stack := v :: f.stack }) ∧ s.KeepsResults
  | .done v s => v.Is .result ∧ s.KeepsResults
  | .abort _ s => s.KeepsResults

theorem Code.Typed.step (h : c.Typed P n kinds n' kinds') (hplaced : Placed code c ip stop)
    (hstack : kinds.Hold stack) (hresume : Resumes P code resume kinds') (hs : s.KeepsResults) :
    (Interpreter.step E ⟨code, stack, ip, stop, resume⟩ s).Typed P := by
  induction h with
  | nil =>
    cases hplaced with
    | nil le =>
      cases hresume with
      | nil =>
        obtain ⟨v, rest, rfl, hv, -⟩ := hstack.cons_eq
        rw [Interpreter.step_done le]
        exact ⟨hv, hs⟩
      | cons placed typed outer =>
        rw [Interpreter.step_leave le]
        exact ⟨⟨_, _, _, _, _, placed, typed, hstack, outer⟩, hs⟩
  | forget hle _ ih => exact ih hplaced (hstack.le hle) hresume
  | @plain opcode operands rest _ _ _ _ kinds₁ _ hfits htakes hrefers _ hrest _ =>
    cases hplaced with
    | plain lt word not_condition not_loop width spells next =>
      -- The code behind the instruction goes on with any stack that the instruction may leave.
      have hbehind : ∀ stack' : List Slot, kinds₁.Hold stack' →
          Frame.Typed P ⟨code, stack', ip + 1 + operands.length, stop, resume⟩ :=
        fun stack' hstack' => ⟨_, _, _, _, _, next, hrest, hstack', hresume⟩
      by_cases hrule : opcode = .rule
      · subst hrule
        rw [Interpreter.step_rule lt word width spells]
        cases htakes with
        | rule => exact ⟨fun v hv => hbehind _ (.cons hv hstack), hs⟩
      · rw [Interpreter.step_plain lt word not_condition not_loop hrule width spells]
        have hmemo : (Interpreter.plain E opcode (Instr.arg operands) stack s).2.memo = s.memo :=
          Interpreter.memo_plain
        have hholds : ∀ stack', (Interpreter.plain E opcode (Instr.arg operands) stack s).1 =
            .ok stack' → kinds₁.Hold stack' :=
          fun _ => Interpreter.holds_of_plain htakes hrule hstack
        generalize Interpreter.plain E opcode (Instr.arg operands) stack s = out at hmemo hholds ⊢
        obtain ⟨e | stack', t⟩ := out
        · exact hs.of_memo_eq hmemo
        · exact ⟨hbehind stack' (hholds stack' rfl), hs.of_memo_eq hmemo⟩
  | @branch opcode operands _ _ _ _ _ _ _ _ kinds₁ _ hsplits hwidth hrefers hheld hotherwise hrest
      _ _ _ =>
    cases hplaced with
    | @branch _ _ t f _ _ _ _ _ lt word condition width spells t_eq f_eq placed_held
        placed_otherwise next =>
      rw [Interpreter.step_branch lt word condition width spells t_eq f_eq]
      have hblock : if Interpreter.holds E opcode (Instr.arg operands) stack s then _ else _ :=
        Interpreter.holds_of_holds hsplits hstack
      have houter : Resumes P code ((stop, ip + (operands.length + 3) + t + f) :: resume) kinds₁ :=
        .cons next hrest hresume
      cases hholds : Interpreter.holds E opcode (Instr.arg operands) stack s with
      | true =>
        rw [hholds] at hblock
        exact ⟨⟨_, _, _, _, _, placed_held, hheld, hblock, houter⟩, hs⟩
      | false =>
        rw [hholds] at hblock
        exact ⟨⟨_, _, _, _, _, placed_otherwise, hotherwise, hblock, houter⟩, hs⟩
  | @loop body rest n n' kinds kinds' hbody hrest _ _ =>
    have htyped : Code.Typed P (.loop body :: rest) n (.result :: kinds) n' kinds' :=
      .loop hbody hrest
    have hagain := hplaced
    cases hplaced with
    | loop lt word b_eq placed_body next =>
      rw [Interpreter.step_loop lt word b_eq]
      obtain ⟨v, items, rfl, hv, hitems⟩ := hstack.cons_eq
      cases hv with
      | failure => exact ⟨⟨_, _, _, _, _, next, hrest, .cons .failed hitems, hresume⟩, hs⟩
      | success v =>
        exact ⟨⟨_, _, _, _, _, placed_body, hbody, .cons (.value v) hitems,
          .cons hagain htyped hresume⟩, hs⟩

end

namespace Frame.Typed

variable {σ : Type} {E : Setting σ} {P : Program} {f : Frame} {s : State σ}

theorem proper (h : f.Typed P) : f.Proper P := by
  obtain ⟨c, n, n', kinds, kinds', hplaced, htyped, hstack, hresume⟩ := h
  exact htyped.proper hplaced hstack hresume

theorem step (h : f.Typed P) (hs : s.KeepsResults) : (Interpreter.step E f s).Typed P := by
  obtain ⟨c, n, n', kinds, kinds', hplaced, htyped, hstack, hresume⟩ := h
  exact htyped.step hplaced hstack hresume hs

end Frame.Typed

/-! ## Runs -/

namespace State.KeepsResults

variable {σ : Type} {E : Setting σ} {s t : State σ} {index : Nat}

theorem entered (h : s.KeepsResults) (E : Setting σ) (index : Nat) :
    (s.entered E index).KeepsResults := h.of_memo_eq (memo_trace _ _ _ _ _)

/-- What is recalled is a result. -/
theorem memoized (h : s.KeepsResults) {p : Nat} {v : Slot}
    (hhit : s.memoized? E index = some (p, v)) : v.Is .result := by
  rw [memoized?] at hhit
  split at hhit
  · obtain ⟨e, he, hout⟩ := Option.map_eq_some_iff.mp hhit
    obtain ⟨T, hT, hget⟩ := Option.bind_eq_some_iff.mp (Option.filter_eq_some_iff.mp he).1
    cases hout
    exact h T hT e (MemoTable.get?_eq_some hget).1
  · cases hhit

theorem recalled (h : s.KeepsResults) (start p : Nat) (v : Slot) :
    (s.recalled E index start p v).KeepsResults := by
  refine h.of_memo_eq ?_
  unfold State.recalled
  dsimp only
  split
  · exact memo_trace _ _ _ _ _
  · exact memo_trace _ _ _ _ _

theorem remember (h : s.KeepsResults) (E : Setting σ) (index start : Nat) {v : Slot}
    (hv : v.Is .result) :
    (s.remember E index start v).KeepsResults := by
  unfold State.remember
  split
  · intro T hT e he
    obtain ⟨T', hT', rfl⟩ := Option.map_eq_some_iff.mp hT
    rcases MemoTable.mem_insert he with rfl | he
    · exact hv
    · exact h T' hT' e he
  · exact h

theorem initial (statistics : Statistics) (hs : σ) : (E.initial statistics hs).KeepsResults := by
  intro T hT e he
  rw [Setting.initial] at hT
  dsimp only at hT
  split at hT
  · cases hT
    exact absurd he (Array.not_mem_empty e)
  · cases hT

end State.KeepsResults

/-- What came of an invocation or of its body is a result, unless it ended the parse. -/
structure Settled {σ : Type} (o : Outcome Slot) (t : State σ) : Prop where
  result : ∀ v, o = .ok v → v.Is .result
  keeps : t.KeepsResults

namespace Settled

variable {σ : Type} {E : Setting σ} {s t : State σ} {o : Outcome Slot} {v : Slot} {e : ParseFailure}

theorem ok (hv : v.Is .result) (ht : t.KeepsResults) : Settled (.ok v) t :=
  ⟨fun w hw => by cases hw; exact hv, ht⟩

theorem error (ht : t.KeepsResults) : Settled (.error e) t := ⟨nofun, ht⟩

theorem left (h : Settled o t) (index : Nat) : Settled o (State.left E s index o t) := by
  cases o with
  | error e => exact .error h.keeps
  | ok v =>
    have hv : v.Is .result := h.result v rfl
    have hback : State.KeepsResults { t with currentRule := s.currentRule } := h.keeps
    have hkept := hback.remember E index s.pos hv
    refine .ok hv (hkept.of_memo_eq ?_)
    unfold State.left State.returned
    dsimp only
    split
    · exact State.memo_trace _ _ _ _ _
    · exact State.memo_trace _ _ _ _ _

/-- An invocation gives a result if its body does. -/
theorem rule {index : Nat} {body : Run (State σ) Slot}
    (hbody : ∀ s o t, s.KeepsResults → body s = some (o, t) → Settled o t) (hs : s.KeepsResults)
    (h : State.rule E index body s = some (o, t)) : Settled o t := by
  rcases State.rule_eq_some.mp h with ⟨p, v, hhit, hr⟩ | ⟨-, o', t', hrun, hr⟩
  · cases hr
    exact .ok ((hs.entered E index).memoized hhit) ((hs.entered E index).recalled _ _ _)
  · cases hr
    have hentered : State.KeepsResults { s.entered E index with currentRule := some index } :=
      hs.entered E index
    exact (hbody _ _ _ hentered hrun).left index

end Settled

namespace Interpreter

variable {σ : Type}

/-- A frame occurs, in some state, in the course of the invocation of a rule. The invocation need not
end. -/
inductive Occurs (E : Setting σ) : Nat → State σ → Frame → State σ → Prop
  /-- The rule is entered unless its outcome is recalled. -/
  | enter {index : Nat} {s : State σ} {r : Program.Rule}
      (fresh : (s.entered E index).memoized? E index = none)
      (rule : E.program.rules[index]? = some r) :
      Occurs E index s (.start r.code) { s.entered E index with currentRule := some index }
  /-- A frame takes a step. -/
  | next {index : Nat} {s t u : State σ} {f g : Frame} (occurs : Occurs E index s f t)
      (step : step E f t = .next g u) : Occurs E index s g u
  /-- A frame invokes a rule, in the course of which another frame occurs. -/
  | inside {index callee : Nat} {s t u v : State σ} {f g h : Frame} (occurs : Occurs E index s f t)
      (step : step E f t = .invoke callee g u) (inner : Occurs E callee u h v) :
      Occurs E index s h v
  /-- A frame goes on with the result of the rule that it invoked. -/
  | back {index callee n : Nat} {s t u w : State σ} {f g : Frame} {v : Slot}
      (occurs : Occurs E index s f t) (step : step E f t = .invoke callee g u)
      (returns : runRule E n callee u = some (.ok v, w)) :
      Occurs E index s { g with stack := v :: g.stack } w

/-- Every frame that occurs in the course of an invocation is proper, and the invocation as well as
all that it makes in turn have results, if they end and nothing ends the parse. -/
structure Safe (E : Setting σ) (index : Nat) (s : State σ) : Prop where
  proper : ∀ f t, Occurs E index s f t → f.Proper E.program
  result : ∀ n v t, runRule E n index s = some (.ok v, t) → v.Is .result
  inner : ∀ f t callee g u n v w, Occurs E index s f t → step E f t = .invoke callee g u →
    runRule E n callee u = some (.ok v, w) → v.Is .result

section

variable {E : Setting σ}
  (hcode : ∀ (i : Nat) r, E.program.rules[i]? = some r → (Frame.start r.code).Typed E.program)
include hcode

/-- The body of a rule gives a result if typed frames do. -/
theorem settled_of_runBody {n : Nat}
    (hframe : ∀ (f : Frame) (s : State σ) o t, f.Typed E.program → s.KeepsResults →
      runFrame E n f s = some (o, t) → Settled o t)
    (index : Nat) (s : State σ) (o : Outcome Slot) (t : State σ) (hs : s.KeepsResults)
    (hrun : runBody E n index s = some (o, t)) : Settled o t := by
  rw [runBody] at hrun
  cases hr : E.program.rules[index]? with
  | some r =>
    rw [hr] at hrun
    exact hframe _ s o t (hcode index r hr) hs hrun
  | none =>
    rw [hr] at hrun
    cases hrun
    exact .ok .failure hs

/-- A typed frame gives a result. -/
theorem settled_of_runFrame (n : Nat) : ∀ (f : Frame) (s : State σ) (o : Outcome Slot) (t : State σ),
    f.Typed E.program → s.KeepsResults → runFrame E n f s = some (o, t) → Settled o t := by
  induction n with
  | zero =>
    intro f s o t _ _ hrun
    cases hrun
  | succ n ih =>
    intro f s o t hf hs hrun
    have hstep : (step E f s).Typed E.program := hf.step hs
    rw [runFrame_succ] at hrun
    cases hnext : step E f s with
    | next g u =>
      rw [hnext] at hrun hstep
      exact ih g u o t hstep.1 hstep.2 hrun
    | done v u =>
      rw [hnext] at hrun hstep
      cases hrun
      exact .ok hstep.1 hstep.2
    | abort e u =>
      rw [hnext] at hrun hstep
      cases hrun
      exact .error hstep
    | invoke callee g u =>
      rw [hnext] at hrun hstep
      dsimp only at hrun
      have hcallee : ∀ o t, runRule E n callee u = some (o, t) → Settled o t :=
        fun _ _ => Settled.rule (settled_of_runBody hcode ih callee) hstep.2
      cases hreturn : runRule E n callee u with
      | none =>
        rw [hreturn] at hrun
        cases hrun
      | some out =>
        obtain ⟨e | v, w⟩ := out
        · rw [hreturn] at hrun
          cases hrun
          exact hcallee _ _ hreturn
        · rw [hreturn] at hrun
          have hv := hcallee _ _ hreturn
          exact ih _ w o t (hstep.1 v (hv.result v rfl)) hv.keeps hrun

/-- An invocation gives a result. -/
theorem settled_of_runRule {n index : Nat} {s t : State σ} {o : Outcome Slot} (hs : s.KeepsResults)
    (hrun : runRule E n index s = some (o, t)) : Settled o t :=
  Settled.rule (settled_of_runBody hcode (settled_of_runFrame hcode n) index) hs hrun

/-- Every frame that occurs is typed. -/
theorem Occurs.typed {index : Nat} {s t : State σ} {f : Frame} (h : Occurs E index s f t)
    (hs : s.KeepsResults) : f.Typed E.program ∧ t.KeepsResults := by
  induction h with
  | @enter index s r fresh rule => exact ⟨hcode index r rule, hs.entered E index⟩
  | next _ hnext ih =>
    obtain ⟨hf, ht⟩ := ih hs
    have hstep := hf.step ht (E := E)
    rw [hnext] at hstep
    exact hstep
  | inside _ hinvoke _ ih ih_inner =>
    obtain ⟨hf, ht⟩ := ih hs
    have hstep := hf.step ht (E := E)
    rw [hinvoke] at hstep
    exact ih_inner hstep.2
  | back _ hinvoke hreturns ih =>
    obtain ⟨hf, ht⟩ := ih hs
    have hstep := hf.step ht (E := E)
    rw [hinvoke] at hstep
    have hv := settled_of_runRule hcode hstep.2 hreturns
    exact ⟨hstep.1 _ (hv.result _ rfl), hv.keeps⟩

theorem safe_of_typed {index : Nat} {s : State σ} (hs : s.KeepsResults) : Safe E index s where
  proper _ _ h := (h.typed hcode hs).1.proper
  result _ _ _ h := (settled_of_runRule hcode hs h).result _ rfl
  inner f t callee g u n v w h hinvoke hreturns := by
    obtain ⟨hf, ht⟩ := h.typed hcode hs
    have hstep := hf.step ht (E := E)
    rw [hinvoke] at hstep
    exact (settled_of_runRule hcode hstep.2 hreturns).result _ rfl

end

end Interpreter

section

variable {σ : Type} {E : Setting σ} {g : Grammar} {f : Facts} {c : Generated}

/-- The rules of a program that carries generated code are typed from the start. -/
theorem Program.Carries.start_typed (hc : E.program.Carries c) (hg : f.generate g = .ok c)
    (hf : f.Resolves g) (hE : E.program.Addressable) (i : Nat) (r : Program.Rule)
    (hr : E.program.rules[i]? = some r) : (Frame.start r.code).Typed E.program := by
  have hplaced := hc.laidOut hg hf hE i
  have htyped := getElem?_rel (hc.rules_typed hg hf hE) i
  rw [hr] at hplaced
  cases hcode : c.code[i]? with
  | none =>
    rw [hcode] at hplaced
    cases hplaced
  | some code =>
    have hsize : code.size < 2 ^ 32 := hc.size_lt hE (List.mem_of_getElem? hcode)
    rw [hcode] at hplaced htyped
    generalize g.rules[i]? = rule at htyped
    cases hplaced with
    | some hplaced =>
      cases htyped with
      | some htyped => exact ⟨_, _, _, _, _, hplaced, htyped.typed hsize, .nil, .nil⟩

/-- The machine code that is generated for a linked grammar is safe, as long as sizes fit into its
words: in every frame that occurs in the course of a parse, whatever is memoized, traced or counted
and whatever actions answer, the next instruction finds on the stack what it reads there, saved
offsets, lists and values where it asks for them, and every rule gives a value or a failure. -/
theorem Facts.generate_safe (hg : f.generate g = .ok c) (hf : f.Resolves g)
    (hc : E.program.Carries c) (hE : E.program.Addressable) (index : Nat)
    (statistics : Statistics) (hs : σ) :
    Interpreter.Safe E index (E.initial statistics hs) :=
  Interpreter.safe_of_typed (hc.start_typed hg hf hE) (.initial statistics hs)

end

/-- In the grammar whose rule runs code on any character, the label is handed over as a value. -/
theorem labeledCharacter_safe :
    ∃ f t, Interpreter.Occurs labeledCharacterSetting 0
        (labeledCharacterSetting.initial (.zero []) 0) f t ∧
      f.code[f.ip]?.bind Opcode.ofWord? = some .call ∧ f.operand 3 = 1 ∧
      ∃ v, f.stack[f.operand 4]? = some (.value v) := by
  have hg : (Facts.linked labeledCharacter).generate labeledCharacter =
    .ok labeledCharacterCode := by cbv
  have hfit : labeledCharacterSetting.program.Addressable := by
    constructor <;> decide
  obtain ⟨hcode, hconstants, hactions⟩ := labeledCharacterCode.program_carries hg false
  have hsafe := Facts.generate_safe hg (Facts.resolves_link _ _ _) (E := labeledCharacterSetting)
    ⟨hcode, hconstants, hactions⟩ hfit 0 (.zero []) 0
  -- The sixth step leads to the call.
  obtain ⟨f, t, hoccurs, hlt, hword, hcount⟩ : ∃ f t, Interpreter.Occurs labeledCharacterSetting 0
      (labeledCharacterSetting.initial (.zero []) 0) f t ∧ f.ip < f.stop ∧
      f.code[f.ip]?.bind Opcode.ofWord? = some .call ∧ f.operand 3 = 1 :=
    ⟨_, _, .next (.next (.next (.next (.next (.next (.enter rfl rfl) rfl) rfl) rfl) rfl) rfl) rfl,
      by decide, rfl, rfl⟩
  obtain ⟨opcode, hopcode, hfinds, -⟩ := (hsafe.proper f t hoccurs).finds hlt
  obtain rfl : .call = opcode := Option.some.inj (hword.symm.trans hopcode)
  exact ⟨f, t, hoccurs, hword, hcount, hfinds.2 0 (by omega)⟩

end PegMachine
