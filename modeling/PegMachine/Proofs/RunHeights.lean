import PegMachine.Proofs.EffectSums

/-!
# Heights at the end of a run

Code that the check of stack effects accepts moves the top of the stack as far as the check says,
on every run that comes to its end without taking an entry that is not there: whichever blocks are
entered, and however often loops go round. What carries the proof is that the height at which a
frame will end is settled by where it stands: by the sums of the rest of its block, and of the rest
of every block around it.
-/

namespace PegMachine

open Interpreter

variable {σ : Type} {E : Setting σ} {code : Array UInt32} {n : Nat} {d h : Int} {f g : Frame}
  {s t : State σ} {resume : List (Nat × Nat)} {opcode : Opcode}

/-! ## Runs with enough entries -/

/-- The stack holds the entries that the next instruction takes. -/
def Frame.Supplied (f : Frame) : Prop :=
  f.ip < f.stop → ∀ opcode ∈ (f.code[f.ip]?).bind Opcode.ofWord?,
    opcode.taken f.operand ≤ f.stack.length

instance (f : Frame) : Decidable f.Supplied :=
  inferInstanceAs (Decidable (f.ip < f.stop → ∀ opcode ∈ (f.code[f.ip]?).bind Opcode.ofWord?,
    opcode.taken f.operand ≤ f.stack.length))

/-- The frames of a run, one after the other: one in front of every instruction and behind every
block. -/
def Interpreter.frames (E : Setting σ) : Nat → Frame → State σ → List Frame
  | 0, _, _ => []
  | fuel + 1, f, s => f ::
    match step E f s with
    | .next f s => frames E fuel f s
    | .invoke index f s =>
      match runRule E fuel index s with
      | some (.ok result, s) => frames E fuel { f with stack := result :: f.stack } s
      | some (.error _, _) | none => []
    | .done _ _ | .abort _ _ => []

/-- Coming to the end leaves the state as it is. -/
theorem Interpreter.step_eq_done {r : Slot} (hstep : step E f s = .done r t) : t = s := by
  rw [step] at hstep
  split at hstep
  · split at hstep
    · next opcode _ =>
      rw [stepOpcode] at hstep
      split at hstep
      · cases hstep
      split at hstep
      · cases hstep
      split at hstep
      · cases hstep
      split at hstep <;> cases hstep
    · cases hstep
  · split at hstep
    · cases hstep
    · cases hstep
      rfl

/-! ## Where a frame will end -/

/-- The sums of the rest of a block, and of the rest of every block around it, lead from one height
to another. -/
def LeadsTo (code : Array UInt32) : List (Nat × Nat) → Int → Int → Prop
  | [], h, d => h = d
  | (stop, ip) :: resume, h, d => ∃ h', AddsUp code ip stop h h' ∧ LeadsTo code resume h' d

/-- The height at which a frame will end, as its code says. -/
def Frame.EndsAt (f : Frame) (d : Int) : Prop :=
  LeadsTo f.code ((f.stop, f.ip) :: f.resume) f.stack.length d

theorem Frame.length_appendTop {stack : List Slot} (henough : 2 ≤ stack.length) :
    (appendTop stack).length = stack.length - 2 + 1 := by
  match stack, henough with
  | _ :: _ :: _, _ => rfl

/-- An instruction without blocks that has enough entries takes and gives as many as it says. -/
theorem Interpreter.length_plain {stack stack' : List Slot} {arg : Nat → Nat}
    (not_condition : opcode.isCondition = false) (not_loop : opcode.isLoop = false)
    (not_rule : opcode ≠ .rule) (hsupplied : opcode.taken arg ≤ stack.length)
    (hplain : plain E opcode arg stack s = (.ok stack', t)) :
    (stack'.length : Int) = stack.length + opcode.shift arg := by
  suffices hlength : stack'.length = stack.length - opcode.taken arg + opcode.given by
    rw [Opcode.shift]
    omega
  cases opcode with
  | push | pushUndefined | pushNull | pushFailed | pushEmptyArray | pushCurrPos | acceptN
  | acceptString | acceptRegexp | fail =>
    cases hplain
    rfl
  | silentFailsOn | silentFailsOff | silentFailsReset | loadSavedPos | updateSavedPos =>
    cases hplain
    rfl
  | pop | popCurrPos =>
    cases hplain
    exact List.length_tail
  | popN =>
    cases hplain
    exact List.length_drop
  | nip | wrap =>
    cases hplain
    exact congrArg (· + 1) List.length_drop
  | text =>
    cases hplain
    exact congrArg (· + 1) List.length_tail
  | append =>
    cases hplain
    exact Frame.length_appendTop hsupplied
  | call =>
    rw [plain] at hplain
    split at hplain
    · cases hplain
      exact congrArg (· + 1) List.length_drop
    · cases hplain
  | rule => exact absurd rfl not_rule
  | ifTruthy | ifError | ifNotError | matchAny | matchString | matchStringIc | matchRegexp
  | ifArrlenMin | ifArrlenMax => cases not_condition
  | whileNotError => cases not_loop

/-- What one step leads to ends at the same height. -/
theorem LeadsTo.step {stack : List Slot} {ip stop : Nat}
    (hleads : LeadsTo code ((stop, ip) :: resume) stack.length d)
    (hsupplied : Frame.Supplied ⟨code, stack, ip, stop, resume⟩) :
    match step E ⟨code, stack, ip, stop, resume⟩ s with
    | .next g _ => g.EndsAt d
    | .invoke _ g _ => ∀ result, Frame.EndsAt { g with stack := result :: g.stack } d
    | .done _ _ => (stack.length : Int) = d
    | .abort _ _ => True := by
  obtain ⟨h, hblock, haround⟩ := hleads
  cases hblock with
  | done =>
    cases resume with
    | nil =>
      rw [step_done le_rfl]
      exact haround
    | cons after resume =>
      rw [step_leave le_rfl]
      exact haround
  | @plain _ _ _ _ opcode word not_condition not_loop inside _ next =>
    have hlt : ip < stop := by omega
    have htaken := hsupplied hlt opcode word
    rw [step_opcode hlt word]
    simp only [stepOpcode, not_condition, not_loop, Bool.false_eq_true, if_false]
    by_cases hrule : opcode = .rule
    · -- The entry that is given is the result, which is pushed after the invocation.
      subst hrule
      rw [if_pos rfl]
      exact fun result => ⟨h, next, haround⟩
    · rw [if_neg hrule]
      cases hplain : plain E opcode (Instruction.argAt code ip) stack s with
      | mk o t =>
        have hplain' : plain E opcode (Frame.operand ⟨code, stack, ip, stop, resume⟩) stack s =
            (o, t) := hplain
        rw [hplain']
        cases o with
        | error e => trivial
        | ok stack' =>
          have hheight := length_plain not_condition not_loop hrule htaken hplain
          refine ⟨h, ?_, haround⟩
          rw [Frame.moveTo, hheight]
          exact next
  | branch word condition base_eq t_eq f_eq inside held otherwise agree _ next =>
    subst agree base_eq t_eq f_eq
    rw [step_opcode (by omega) word]
    simp only [stepOpcode, condition, if_true, Frame.branch]
    have hblock := held.from_add stack.length
    have hblock' := otherwise.from_add stack.length
    rw [Int.add_zero] at hblock hblock'
    split
    · exact ⟨_, hblock, h, next, haround⟩
    · exact ⟨_, hblock', h, next, haround⟩
  | loop word loop b_eq inside body agree next =>
    subst agree b_eq
    rw [step_opcode (by omega) word]
    simp only [stepOpcode, Opcode.isCondition_of_isLoop loop, loop, Bool.false_eq_true, if_true,
      if_false, Frame.loop]
    have hround := body.from_add stack.length
    rw [Int.add_zero] at hround
    split
    · -- Behind its body the loop stands again, and the way from there on has the same sums.
      exact ⟨_, hround, h, .loop word loop rfl inside body rfl next, haround⟩
    · exact ⟨h, next, haround⟩

/-- A run that ends with enough entries all along ends at the height settled from its start. -/
theorem Frame.EndsAt.run {r : Slot} (hends : f.EndsAt d)
    (hrun : runFrame E n f s = some (.ok r, t)) (hsupplied : ∀ g ∈ frames E n f s, g.Supplied) :
    ∃ g, (frames E n f s).getLast? = some g ∧ step E g t = .done r t ∧
      (g.stack.length : Int) = d := by
  induction n generalizing f s with
  | zero => cases hrun
  | succ n ih =>
    have hstep := LeadsTo.step (E := E) (s := s) hends (hsupplied f List.mem_cons_self)
    rw [runFrame_succ] at hrun
    rw [frames] at hsupplied ⊢
    rw [List.getLast?_cons]
    cases heq : step E f s with
    | next f' s' =>
      rw [heq] at hstep hrun hsupplied
      obtain ⟨g, hg, hend⟩ := ih hstep hrun fun g hg => hsupplied g (List.mem_cons_of_mem f hg)
      exact ⟨g, by rw [hg, Option.getD_some], hend⟩
    | invoke index f' s' =>
      rw [heq] at hstep hrun hsupplied
      dsimp only at hrun hsupplied ⊢
      cases hrule : runRule E n index s' with
      | none =>
        rw [hrule] at hrun
        cases hrun
      | some out =>
        rw [hrule] at hrun hsupplied
        obtain ⟨e | result, s''⟩ := out
        · cases hrun
        · obtain ⟨g, hg, hend⟩ := ih (hstep result) hrun fun g hg =>
            hsupplied g (List.mem_cons_of_mem f hg)
          exact ⟨g, by rw [hg, Option.getD_some], hend⟩
    | done result s' =>
      rw [heq] at hstep hrun
      cases hrun
      obtain rfl := step_eq_done heq
      exact ⟨f, rfl, heq, hstep⟩
    | abort e s' =>
      rw [heq] at hrun
      cases hrun

/-- Code that the check of stack effects accepts consists of whole instructions, whose blocks lie
inside of the block around them. Where its sums stay in 32 bits, every run of it that comes to its
end, and on which no instruction takes more entries than there are, moves the top of the stack as
far as the check says, whatever the stack, the state and the program around it. -/
theorem stackEffect_sound {k : Int32} (hok : stackEffect code.toList = .ok k) :
    (∃ d, AddsWords code 0 code.size 0 d ∧ k = .ofInt d) ∧
      ∀ d, AddsInWord code 0 code.size 0 d → ∀ {σ : Type} (E : Setting σ) (stack : List Slot)
        (s : State σ) (n : Nat) (r : Slot) (t : State σ),
        runFrame E n { code, stack, stop := code.size } s = some (.ok r, t) →
        (∀ g ∈ frames E n { code, stack, stop := code.size } s, g.Supplied) →
        ∃ g, (frames E n { code, stack, stop := code.size } s).getLast? = some g ∧
          step E g t = .done r t ∧ (g.stack.length : Int) = stack.length + k.toInt := by
  obtain ⟨d, hadds, rfl⟩ := adds_of_stackEffect hok
  refine ⟨⟨d, hadds, rfl⟩, fun d' hsums σ E stack s n r t hrun hsupplied => ?_⟩
  obtain ⟨rfl, hfit, hup⟩ := hadds.exact hsums ⟨by decide, by decide⟩
  rw [Int32.toInt_ofInt_of_le hfit.1 hfit.2]
  have hup' := hup.from_add stack.length
  rw [Int.add_zero] at hup'
  exact Frame.EndsAt.run ⟨_, hup', rfl⟩ hrun hsupplied

/-- Code that collects all characters that are left in a list. -/
def collectingCode : Array UInt32 :=
  #[29, 15, 2, 2, 19, 1, 21, 0, 14, 8, 6, 15, 2, 2, 19, 1, 21, 0, 2]

/-- A parse of two characters without rules. -/
def twoCharacters : Setting Nat where
  program := { rules := #[], constants := #[], actions := #[], starters := [], defaultStart := 0,
               memoize := false, trace := false, statistics := false }
  input := .ofString "ab"
  handler _ _ _ _ calls := (.error .unbound, calls)

theorem collectingCode_sums : AddsInWord collectingCode 0 19 0 1 :=
  -- An empty list is pushed.
  @Adds.plain _ _ _ 0 19 0 1 .pushEmptyArray rfl rfl rfl (by decide) (by decide) <|
  -- The first character is pushed, or a failure.
  @Adds.branch _ _ _ 1 19 4 2 2 1 1 1 1 .matchAny rfl rfl rfl rfl rfl (by decide)
    (@Adds.plain _ _ _ 4 6 0 1 .acceptN rfl rfl rfl (by decide) (by decide) .done)
    (@Adds.plain _ _ _ 6 8 0 1 .fail rfl rfl rfl (by decide) (by decide) .done)
    trivial (by decide) <|
  -- A character is put into the list, and the next one is pushed.
  @Adds.loop _ _ _ 8 19 8 2 1 0 .whileNotError rfl rfl rfl (by decide)
    (@Adds.plain _ _ _ 10 18 0 0 .append rfl rfl rfl (by decide) (by decide) <|
      @Adds.branch _ _ _ 11 18 14 2 2 (-1) 0 1 1 .matchAny rfl rfl rfl rfl rfl (by decide)
        (@Adds.plain _ _ _ 14 16 0 1 .acceptN rfl rfl rfl (by decide) (by decide) .done)
        (@Adds.plain _ _ _ 16 18 0 1 .fail rfl rfl rfl (by decide) (by decide) .done)
        trivial (by decide) .done)
    trivial <|
  -- The failure at the end is dropped.
  @Adds.plain _ _ _ 18 19 2 1 .pop rfl rfl rfl (by decide) (by decide) .done

/-- A run of that code, which goes around the loop twice, pushes one entry. -/
theorem collectingCode_pushes :
    ∃ g t, (frames twoCharacters 30 { code := collectingCode, stack := [.failed], stop := 19 }
        (twoCharacters.initial (.zero []) 0)).getLast? = some g ∧
      step twoCharacters g t = .done (.value (.array [.string "a", .string "b"])) t ∧
      g.stack.length = 2 := by
  have hok : stackEffect collectingCode.toList = .ok 1 := by cbv
  have hrun : (runFrame twoCharacters 30 { code := collectingCode, stack := [.failed], stop := 19 }
        (twoCharacters.initial (.zero []) 0)).map (·.1) =
      some (.ok (.value (.array [.string "a", .string "b"]))) := by cbv
  have hsupplied : ∀ g ∈ frames twoCharacters 30
      { code := collectingCode, stack := [.failed], stop := 19 }
        (twoCharacters.initial (.zero []) 0), g.Supplied := by
    decide +kernel
  obtain ⟨⟨_, t⟩, hrun, rfl⟩ := Option.map_eq_some_iff.mp hrun
  obtain ⟨g, hg, hend, hlength⟩ := (stackEffect_sound hok).2 1 collectingCode_sums twoCharacters
    [.failed] (twoCharacters.initial (.zero []) 0) 30 _ t hrun hsupplied
  refine ⟨g, t, hg, hend, ?_⟩
  have hone : ((1 : Int32).toInt) = 1 := rfl
  rw [hone, List.length_singleton] at hlength
  omega

end PegMachine
