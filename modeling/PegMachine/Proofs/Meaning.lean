import PegMachine.Proofs.Generation
import PegMachine.Proofs.Placement

/-!
# Generated code means what its expression means

Code *means* an evaluation in a scope if it pushes what the evaluation gives, on every stack of the
height that the code was generated for whose slots hold the labels in scope. Each combination of
expressions is generated from code that means the parts, and its code means the whole; so by
recursion the code of a node means the node.
-/

namespace PegMachine

open Code

/-! ## Effects -/

namespace Code

@[simp] theorem effect_nil : effect [] = 0 := rfl

@[simp] theorem effect_cons (i : Instr) (c : Code) : effect (i :: c) = i.effect + effect c := rfl

@[simp] theorem effect_append (a b : Code) : effect (a ++ b) = effect a + effect b :=
  Instr.effectAll_append a b

@[simp] theorem effect_branch (opcode : Opcode) (operands : List UInt32) (held otherwise : Code) :
    (Instr.branch opcode operands held otherwise).effect = effect held := rfl

@[simp] theorem effect_loop (body : Code) : (Instr.loop body).effect = 0 := rfl

@[simp] theorem effect_plain (opcode : Opcode) (operands : List UInt32) :
    (Instr.plain opcode operands).effect = StackEffect.plain opcode operands := rfl

@[simp] theorem effect_op (opcode : Opcode) : (op opcode).effect = StackEffect.plain opcode [] := rfl

@[simp] theorem effect_op1 (opcode : Opcode) (w : UInt32) :
    (op1 opcode w).effect = StackEffect.plain opcode [w] := rfl

end Code

/-! ## Meaning -/

/-- The labels in scope after the code of an expression that was generated for some height. -/
def Scope.after (g : Grammar) (id : NodeId) (height : Nat) (scope : Scope) : Scope :=
  match g.shape id with
  | .labeled (some label) _ => scope.bind label height
  | _ => scope

theorem Binds.after {stack : List Slot} {scope : Scope} {env : Env} (h : Binds stack scope env)
    (g : Grammar) (id : NodeId) (v : Slot) :
    Binds (v :: stack) (scope.after g id stack.length) (env.after g id v) := by
  by_cases hlabeled : ∃ label e, g.shape id = .labeled (some label) e
  · obtain ⟨label, e, hshape⟩ := hlabeled
    simpa only [Scope.after, Env.after, hshape] using h.bind label v
  · have hscope : scope.after g id stack.length = scope := by
      unfold Scope.after
      split
      · next label e hshape => exact absurd ⟨label, e, hshape⟩ hlabeled
      · rfl
    have henv : env.after g id v = env := by
      unfold Env.after
      split
      · next label e hshape => exact absurd ⟨label, e, hshape⟩ hlabeled
      · rfl
    rw [hscope, henv]
    exact h.push v

section

variable {σ : Type} (E : Setting σ) (invoke : Nat → Run (State σ) Slot) (rounds : Nat)

/-- Well-formed code means an evaluation in a scope, on stacks of some height. -/
structure Means (code : Code) (height : Nat) (scope : Scope) (x : Env → Run (State σ) Slot) :
    Prop where
  wellFormed : code.WellFormed
  pushes : code.effect = 1 → height + code.size < 2 ^ 32 → ∀ stack env, stack.length = height →
    Binds stack scope env → Pushes E invoke rounds code stack (x env)

end

variable {σ : Type} {E : Setting σ} {invoke : Nat → Run (State σ) Slot} {rounds : Nat}
  {p q : Pools} {code whole : Code} {height : Nat} {scope : Scope} {x : Env → Run (State σ) Slot}

/-- Code that was generated for one slot more runs above anything that is pushed. -/
theorem Means.above (h : Means E invoke rounds code (height + 1) scope x)
    (heffect : code.effect = 1) (hsize : height + 1 + code.size < 2 ^ 32) {stack : List Slot}
    {env : Env} (hheight : stack.length = height) (hb : Binds stack scope env) (v : Slot) :
    Pushes E invoke rounds code (v :: stack) (x env) :=
  h.pushes heffect hsize (v :: stack) env (by rw [List.length_cons, hheight]) (hb.push v)

/-- The targets of references are the rules that they name. -/
def Facts.Resolves (f : Facts) (g : Grammar) : Prop :=
  ∀ id name rule, g.shape id = .ruleRef name → f.target? id = some rule →
    g.ruleIndex? name = some rule

namespace Generate

/-! ## Terminals -/

/-- A text constant is the match of what takes no text. -/
theorem pushes_emptyText {c : UInt32} {shape : Shape} {stack : List Slot}
    (hc : E.program.string c.toNat = "") (htaken : ∀ pos, Peg.taken? E.input pos shape = some []) :
    Pushes E invoke rounds [op1 .push c] stack (Peg.terminal (Peg.machine E) E.input shape) := by
  funext s
  simp only [Instr.execAll_cons, Instr.execAll_nil, Run.bind_apply, Run.map_apply, Peg.terminal,
    htaken, Instr.exec, op1, reduceCtorEq, if_false, Interpreter.plain, State.constant,
    Instr.arg_one, hc]
  rfl

theorem terminal_eq_ok {opcode : Opcode} {operands : List UInt32} {accept : Instr} {e : UInt32}
    (h : terminal opcode operands accept e p = .ok (whole, q)) :
    q = p ∧ whole = [.branch opcode operands [accept] [op1 .fail e]] := by
  obtain ⟨i, p', hi, hwhole⟩ := bind_eq_ok.mp h
  obtain ⟨-, rfl, rfl⟩ := branch_eq_ok.mp hi
  obtain ⟨rfl, rfl⟩ := pure_eq_ok.mp hwhole
  exact ⟨rfl, rfl⟩

theorem literal_means {value : String} {ignoreCase : Bool} (hE : E.program.Addressable)
    (h : literal value ignoreCase p = .ok (whole, q)) (hq : E.program.Extends q) :
    E.program.Extends p ∧ Means E invoke rounds whole height scope
      fun _ => Peg.terminal (Peg.machine E) E.input (.literal value ignoreCase) := by
  rw [literal] at h
  split at h
  · next hempty =>
    obtain ⟨c, p₁, hc, hwhole⟩ := bind_eq_ok.mp h
    obtain ⟨rfl, rfl⟩ := pure_eq_ok.mp hwhole
    obtain ⟨hp, hc⟩ := string_eq_ok hE hc hq
    refine ⟨hp, by simp, fun _ _ stack _ _ _ => pushes_emptyText hc fun pos => ?_⟩
    simp [Peg.taken?, hempty]
  · next hempty =>
    split at h
    · next hcase =>
      obtain ⟨c, p₁, hc, hrest⟩ := bind_eq_ok.mp h
      obtain ⟨e, p₂, he, hwhole⟩ := bind_eq_ok.mp hrest
      obtain ⟨rfl, rfl⟩ := terminal_eq_ok hwhole
      obtain ⟨hp₁, he⟩ := expectation_eq_ok hE he hq
      obtain ⟨hp, hc⟩ := string_eq_ok hE hc hp₁
      have htaken (pos : Nat) : Peg.taken? E.input pos (.literal value ignoreCase) =
          if Text.startsWithLowered (Unicode.lowerText value.toList) (E.input.rest pos) then
            some ((E.input.rest pos).take (UInt32.ofNat value.length).toNat)
          else none := by
        rw [Peg.taken?, if_neg hempty, if_pos hcase]
      refine ⟨hp, by simp, fun _ _ stack _ _ _ =>
        pushes_terminal htaken (fun s => ?_) (by decide) (fun s => rfl) he⟩
      simp only [Interpreter.holds, State.matchStringIc, Instr.arg_one, hc, String.toList_ofList,
        State.rest]
    · next hcase =>
      obtain ⟨c, p₁, hc, hrest⟩ := bind_eq_ok.mp h
      obtain ⟨e, p₂, he, hwhole⟩ := bind_eq_ok.mp hrest
      obtain ⟨rfl, rfl⟩ := terminal_eq_ok hwhole
      obtain ⟨hp₁, he⟩ := expectation_eq_ok hE he hq
      obtain ⟨hp, hc⟩ := string_eq_ok hE hc hp₁
      have htaken (pos : Nat) : Peg.taken? E.input pos (.literal value ignoreCase) =
          if value.toList.isPrefixOf (E.input.rest pos) then some value.toList else none := by
        rw [Peg.taken?, if_neg hempty, if_neg hcase]
      refine ⟨hp, by simp, fun _ _ stack _ _ _ =>
        pushes_terminal htaken (fun s => ?_) (by decide) (fun s => ?_) he⟩
      · simp only [Interpreter.holds, State.matchString, Instr.arg_one, hc, State.rest]
      · simp only [Interpreter.plain, Interpreter.pushing, State.acceptString, State.accept,
          Instr.arg_one, hc]

/-- Defects are not kept in the pools of a program. -/
theorem extends_of_defect {message : String} {location : Option Location} {P : Program} {u : Unit}
    (h : defect message location p = .ok (u, q)) (hq : P.Extends q) : P.Extends p := by
  cases h
  exact ⟨hq.constants, hq.actions⟩

theorem extends_of_defects {messages : List String} {location : Option Location} {P : Program}
    {u : Unit} (h : (messages.forM fun message => defect message location) p = .ok (u, q))
    (hq : P.Extends q) : P.Extends p := by
  induction messages generalizing p with
  | nil =>
    obtain ⟨-, rfl⟩ := pure_eq_ok.mp h
    exact hq
  | cons message rest ih =>
    obtain ⟨_, p₁, hmessage, hrest⟩ := bind_eq_ok.mp h
    exact extends_of_defect hmessage (ih hrest)

/-- A pattern decides where a terminal matches. -/
theorem holds_matchRegexp {r : UInt32} {re : Option Regex} (hr : E.pattern? r.toNat = re)
    (stack : List Slot) (s : State σ) :
    Interpreter.holds E .matchRegexp (Instr.arg [r]) stack s =
      re.any (·.isMatch (E.input.rest s.pos)) := by
  simp only [Interpreter.holds, State.matchRegexp, Instr.arg_one, hr, State.rest]

theorem pushes_any {shape : Shape} {e : UInt32}
    (he : E.program.expectation? e.toNat = some (Peg.wanted shape))
    (htaken : ∀ pos, Peg.taken? E.input pos shape =
      if decide (pos < E.input.size) then some ((E.input.rest pos).take 1) else none)
    (stack : List Slot) :
    Pushes E invoke rounds [.branch .matchAny [] [op1 .acceptN 1] [op1 .fail e]] stack
      (Peg.terminal (Peg.machine E) E.input shape) :=
  pushes_terminal htaken (fun _ => rfl) (by decide) (fun _ => rfl) he

theorem charClass_means {parts : List ClassPart} {inverted ignoreCase : Bool} {raw : String}
    {location : Option Location} (hE : E.program.Addressable)
    (h : charClass parts inverted ignoreCase raw location p = .ok (whole, q))
    (hq : E.program.Extends q) :
    E.program.Extends p ∧ Means E invoke rounds whole height scope
      fun _ => Peg.terminal (Peg.machine E) E.input (.charClass parts inverted ignoreCase raw) := by
  obtain ⟨_, p₁, hdefects, hrest⟩ := bind_eq_ok.mp h
  obtain ⟨e, p₂, he, hrest⟩ := bind_eq_ok.mp hrest
  split at hrest
  · next hempty =>
    split at hrest
    · next hinverted =>
      obtain ⟨rfl, rfl⟩ := terminal_eq_ok hrest
      obtain ⟨hp₁, he⟩ := expectation_eq_ok hE he hq
      refine ⟨extends_of_defects hdefects hp₁, by simp, fun _ _ stack _ _ _ =>
        pushes_any he (fun pos => ?_) stack⟩
      simp [Peg.taken?, hempty, hinverted]
    · next hinverted =>
      obtain ⟨rfl, rfl⟩ := pure_eq_ok.mp hrest
      obtain ⟨hp₁, he⟩ := expectation_eq_ok hE he hq
      refine ⟨extends_of_defects hdefects hp₁, by simp, fun _ _ stack _ _ _ => ?_⟩
      funext s
      simp [Peg.terminal, Peg.taken?, hempty, hinverted, Run.bind_apply, Run.map_apply,
        exec_fail he, Peg.wanted]
  · next hempty =>
    obtain ⟨r, p₃, hr, hwhole⟩ := bind_eq_ok.mp hrest
    obtain ⟨rfl, rfl⟩ := terminal_eq_ok hwhole
    obtain ⟨hp₂, hr⟩ := pattern_eq_ok hE hr hq
    obtain ⟨hp₁, he⟩ := expectation_eq_ok hE he hp₂
    have htaken (pos : Nat) :
        Peg.taken? E.input pos (.charClass parts inverted ignoreCase raw) =
          if (Regex.compile? (Regex.anchored (classPattern parts inverted) ignoreCase
            false)).any (·.isMatch (E.input.rest pos)) then
            some ((E.input.rest pos).take 1)
          else none := by
      rw [Peg.taken?, if_neg hempty]
    exact ⟨extends_of_defects hdefects hp₁, by simp, fun _ _ stack _ _ _ =>
      pushes_terminal htaken (holds_matchRegexp hr stack) (by decide) (fun _ => rfl) he⟩

theorem regex_means {value : String} {ignoreCase multiLine : Bool} {raw : String}
    {location : Option Location} (hE : E.program.Addressable)
    (h : regex value ignoreCase multiLine raw location p = .ok (whole, q))
    (hq : E.program.Extends q) :
    E.program.Extends p ∧ Means E invoke rounds whole height scope
      fun _ => Peg.terminal (Peg.machine E) E.input (.regex value ignoreCase multiLine raw) := by
  rw [regex] at h
  have hrest : ∃ p₁, (E.program.Extends p₁ → E.program.Extends p) ∧
      (do
        let r ← pattern value ignoreCase multiLine
        let e ← expectation (.regex raw)
        terminal .matchRegexp [r] (op1 .acceptRegexp r) e) p₁ = .ok (whole, q) := by
    split at h
    · obtain ⟨_, p₁, hdefect, hrest⟩ := bind_eq_ok.mp h
      exact ⟨p₁, extends_of_defect hdefect, hrest⟩
    · exact ⟨p, id, h⟩
  obtain ⟨p₁, hback, hrest⟩ := hrest
  obtain ⟨r, p₂, hr, hrest⟩ := bind_eq_ok.mp hrest
  obtain ⟨e, p₃, he, hwhole⟩ := bind_eq_ok.mp hrest
  obtain ⟨rfl, rfl⟩ := terminal_eq_ok hwhole
  obtain ⟨hp₂, he⟩ := expectation_eq_ok hE he hq
  obtain ⟨hp₁, hr⟩ := pattern_eq_ok hE hr hp₂
  have htaken (pos : Nat) :
      Peg.taken? E.input pos (.regex value ignoreCase multiLine raw) =
        if (E.pattern? r.toNat).any (·.isMatch (E.input.rest pos)) then
          some (Text.takeBytes (((E.pattern? r.toNat).bind
            (·.matchEnd? (E.input.rest pos))).getD 0) (E.input.rest pos))
        else none := by
    rw [Peg.taken?, hr]
  exact ⟨hback hp₁, by simp, fun _ _ stack _ _ _ =>
    pushes_terminal htaken (holds_matchRegexp rfl stack) (by decide) (fun _ => rfl) he⟩

/-! ## Actions -/

/-- The call of an action that was generated for the labels in scope runs it with their values. -/
theorem call_calls {f : UInt32} {replaced : Nat} {run : Instr} {source : String}
    (h : call f replaced scope height p = .ok (run, q))
    (hf : E.program.actions[f.toNat]? = some ⟨scope.labels, source⟩ ∧
      f.toNat = Peg.actionIndex E.program ⟨scope.labels, source⟩)
    (hsize : height + run.assemble.length < 2 ^ 32) {stack : List Slot} {env : Env}
    (hheight : stack.length = height) (hb : Binds stack scope env) (hreplaced : replaced < 2 ^ 32) :
    Calls E invoke rounds run replaced stack source env := by
  obtain ⟨distances, hd, rfl, rfl⟩ := call_eq_ok h
  have hlength := Scope.length_distances hd
  subst hheight
  have hcount : scope.length < 2 ^ 32 ∧ stack.length < 2 ^ 32 := by
    simp only [length_assemble_plain, List.length_append, hlength] at hsize
    omega
  have hcalls : Calls E invoke rounds _ (UInt32.ofNat replaced).toNat stack source env :=
    calls_call hb hd hcount.2.le hcount.1 hf.1 hf.2
  rwa [UInt32.toNat_ofNat_of_lt' hreplaced] at hcalls

theorem wellFormed_call {f : UInt32} {replaced : Nat} {run : Instr}
    (h : call f replaced scope height p = .ok (run, q)) : run.WellFormed := by
  obtain ⟨distances, hd, rfl, rfl⟩ := call_eq_ok h
  refine ⟨rfl, rfl, ?_⟩
  simp [Scope.length_distances hd]

theorem codeTerminal_means {source : String} (hE : E.program.Addressable)
    (h : codeTerminal source scope height p = .ok (whole, q)) (hq : E.program.Extends q) :
    E.program.Extends p ∧ Means E invoke rounds whole height scope
      fun env => Peg.code (Peg.machine E) source env := by
  obtain ⟨f, p₁, hf, hrest⟩ := bind_eq_ok.mp h
  obtain ⟨e, p₂, he, hrest⟩ := bind_eq_ok.mp hrest
  obtain ⟨run, p₃, hrun, hrest⟩ := bind_eq_ok.mp hrest
  obtain ⟨onFailure, p₄, htest, hwhole⟩ := bind_eq_ok.mp hrest
  obtain ⟨-, rfl, rfl⟩ := branch_eq_ok.mp htest
  obtain ⟨rfl, rfl⟩ := pure_eq_ok.mp hwhole
  obtain ⟨-, -, rfl, -⟩ := call_eq_ok hrun
  obtain ⟨hp₁, he⟩ := expectation_eq_ok hE he hq
  obtain ⟨hp, hf⟩ := action_eq_ok hE hf hp₁
  refine ⟨hp, by simp [wellFormed_call hrun], fun _ hsize stack env hheight hb =>
    pushes_code ?_ he⟩
  refine call_calls hrun hf ?_ hheight hb (by decide)
  simp only [size_cons] at hsize
  omega

theorem semanticPredicate_means {source : String} {negative : Bool} (hE : E.program.Addressable)
    (h : semanticPredicate source negative scope height p = .ok (whole, q))
    (hq : E.program.Extends q) :
    E.program.Extends p ∧ Means E invoke rounds whole height scope
      fun env => Peg.semantic (Peg.machine E) source negative env := by
  obtain ⟨f, p₁, hf, hrest⟩ := bind_eq_ok.mp h
  obtain ⟨run, p₂, hrun, hrest⟩ := bind_eq_ok.mp hrest
  have hwhole : q = p₂ ∧ whole = [op .updateSavedPos, op .silentFailsOn, run, op .silentFailsOff,
      .branch .ifTruthy [] [op .pop, op (if negative then .pushFailed else .pushUndefined)]
        [op .pop, op (if negative then .pushUndefined else .pushFailed)]] := by
    cases negative <;>
    · obtain ⟨test, p₃, htest, hwhole⟩ := bind_eq_ok.mp hrest
      obtain ⟨-, rfl, rfl⟩ := branch_eq_ok.mp htest
      exact (pure_eq_ok.mp hwhole).symm
  obtain ⟨rfl, rfl⟩ := hwhole
  obtain ⟨-, -, rfl, -⟩ := call_eq_ok hrun
  obtain ⟨hp, hf⟩ := action_eq_ok hE hf hq
  refine ⟨hp, by cases negative <;> simp [wellFormed_call hrun],
    fun _ hsize stack env hheight hb => ?_⟩
  refine pushes_semantic negative (call_calls hrun hf ?_ hheight hb (by decide))
  simp only [size_cons] at hsize
  omega

theorem actionAround_means {source : String} {inner : Scope}
    (hE : E.program.Addressable)
    (h : actionAround code source inner height p = .ok (whole, q)) (hq : E.program.Extends q) :
    E.program.Extends p ∧ ∀ (g : Grammar) (id : NodeId) (scope : Scope)
      (x : Env → Run (State σ) Slot),
      Means E invoke rounds code (height + 1) scope x →
      (code.effect = 1 → inner = scope.after g id (height + 1)) →
      Means E invoke rounds whole height scope
        fun env => Peg.actionAround (Peg.machine E) g id (x env) source env := by
  obtain ⟨f, p₁, hf, hrest⟩ := bind_eq_ok.mp h
  obtain ⟨run, p₂, hrun, hrest⟩ := bind_eq_ok.mp hrest
  obtain ⟨test, p₃, htest, hwhole⟩ := bind_eq_ok.mp hrest
  obtain ⟨-, rfl, rfl⟩ := branch_eq_ok.mp htest
  obtain ⟨rfl, rfl⟩ := pure_eq_ok.mp hwhole
  have hrunEffect := effect_call hrun
  obtain ⟨-, -, rfl, -⟩ := call_eq_ok hrun
  obtain ⟨hp, hf⟩ := action_eq_ok hE hf hq
  refine ⟨hp, fun g id scope x hx hinner =>
    ⟨by simp [hx.wellFormed, wellFormed_call hrun], fun heffect hsize stack env hheight hb => ?_⟩⟩
  simp only [size_append, size_cons, size_nil, length_assemble_op, length_assemble_op1,
    length_assemble_branch] at hsize
  have hcode : code.effect = 1 := by
    simp [StackEffect.plain, hrunEffect] at heffect
    grind
  refine pushes_actionAround (fun start => hx.above hcode (by omega) hheight hb _) fun start v => ?_
  refine call_calls hrun hf (by omega) (by simp [hheight]) ?_ (by decide)
  have hafter := (hb.push (.pos start)).after g id v
  rwa [List.length_cons, hheight, ← hinner hcode] at hafter

/-! ## Composite expressions -/

theorem named_means {e : UInt32} (h : named e code p = .ok (whole, q)) :
    q = p ∧ ∀ (name : String) (x : Env → Run (State σ) Slot),
      E.program.expectation? e.toNat = some (.other name) →
      Means E invoke rounds code height scope x →
      Means E invoke rounds whole height scope
        fun env => Peg.named (Peg.machine E) name (x env) := by
  obtain ⟨test, p₁, htest, hwhole⟩ := bind_eq_ok.mp h
  obtain ⟨-, rfl, rfl⟩ := branch_eq_ok.mp htest
  obtain ⟨rfl, rfl⟩ := pure_eq_ok.mp hwhole
  refine ⟨rfl, fun name x he hx => ⟨by simp [hx.wellFormed], fun heffect hsize stack env hheight hb =>
    pushes_named (hx.pushes ?_ ?_ stack env hheight hb) he⟩⟩
  · simp [StackEffect.plain] at heffect
    grind
  · simp only [size_append, size_cons] at hsize
    omega

theorem pools_choice {codes : List Code} (h : choice codes p = .ok (whole, q)) : q = p := by
  induction codes generalizing whole q with
  | nil => exact (pure_eq_ok.mp h).2
  | cons first rest ih =>
    cases rest with
    | nil => exact (pure_eq_ok.mp h).2
    | cons second rest =>
      obtain ⟨others, p₁, hothers, hrest⟩ := bind_eq_ok.mp h
      obtain ⟨test, p₂, htest, hwhole⟩ := bind_eq_ok.mp hrest
      obtain ⟨-, -, rfl⟩ := branch_eq_ok.mp htest
      rw [(pure_eq_ok.mp hwhole).2, ih hothers]

theorem choice_means {codes : List Code} {xs : List (Env → Run (State σ) Slot)}
    (h : choice codes p = .ok (whole, q))
    (hx : List.Forall₂ (fun code x => Means E invoke rounds code height scope x) codes xs) :
    Means E invoke rounds whole height scope fun env => Peg.choice (xs.map (· env)) := by
  induction hx generalizing whole q with
  | nil =>
    obtain ⟨rfl, rfl⟩ := pure_eq_ok.mp h
    exact ⟨by simp, fun heffect => absurd heffect (by decide)⟩
  | @cons first x codes xs hx hrest ih =>
    cases hrest with
    | nil =>
      obtain ⟨rfl, rfl⟩ := pure_eq_ok.mp h
      exact hx
    | @cons second y codes xs hy hrest =>
      obtain ⟨others, p₁, hothers, h⟩ := bind_eq_ok.mp h
      obtain ⟨test, p₂, htest, hwhole⟩ := bind_eq_ok.mp h
      obtain ⟨hbalance, rfl, rfl⟩ := branch_eq_ok.mp htest
      obtain ⟨rfl, rfl⟩ := pure_eq_ok.mp hwhole
      have hothers := ih hothers
      refine ⟨by simp [hx.wellFormed, hothers.wellFormed],
        fun heffect hsize stack env hheight hb => ?_⟩
      simp only [size_append, size_cons, size_nil, length_assemble_branch,
        length_assemble_op] at hsize
      simp [StackEffect.plain] at heffect hbalance
      exact pushes_orElse (hx.pushes (by grind) (by omega) stack env hheight hb)
        (hothers.pushes (by grind) (by omega) stack env hheight hb)

theorem text_means (h : text code p = .ok (whole, q)) :
    q = p ∧ ∀ x : Env → Run (State σ) Slot, Means E invoke rounds code (height + 1) scope x →
      Means E invoke rounds whole height scope fun env => Peg.text (Peg.machine E) E.input (x env) := by
  obtain ⟨test, p₁, htest, hwhole⟩ := bind_eq_ok.mp h
  obtain ⟨-, rfl, rfl⟩ := branch_eq_ok.mp htest
  obtain ⟨rfl, rfl⟩ := pure_eq_ok.mp hwhole
  refine ⟨rfl, fun x hx => ⟨by simp [hx.wellFormed], fun heffect hsize stack env hheight hb =>
    pushes_text fun start => hx.above ?_ ?_ hheight hb _⟩⟩
  · simp [StackEffect.plain] at heffect
    grind
  · simp only [size_append, size_cons, length_assemble_op] at hsize
    omega

theorem optional_means (h : optional code p = .ok (whole, q)) :
    q = p ∧ ∀ x : Env → Run (State σ) Slot,
      Means E invoke rounds code height scope x →
      Means E invoke rounds whole height scope fun env => Peg.optional (x env) := by
  obtain ⟨test, p₁, htest, hwhole⟩ := bind_eq_ok.mp h
  obtain ⟨-, rfl, rfl⟩ := branch_eq_ok.mp htest
  obtain ⟨rfl, rfl⟩ := pure_eq_ok.mp hwhole
  refine ⟨rfl, fun x hx => ⟨by simp [hx.wellFormed], fun heffect hsize stack env hheight hb =>
    pushes_optional (hx.pushes ?_ ?_ stack env hheight hb)⟩⟩
  · simp [StackEffect.plain] at heffect
    grind
  · simp only [size_append] at hsize
    omega

theorem simplePredicate_means {negative : Bool}
    (h : simplePredicate code negative p = .ok (whole, q)) :
    q = p ∧ ∀ x : Env → Run (State σ) Slot, Means E invoke rounds code (height + 1) scope x →
      Means E invoke rounds whole height scope
        fun env => Peg.predicate (Peg.machine E) negative (x env) := by
  have hwhole : q = p ∧ whole = [op .pushCurrPos, op .silentFailsOn] ++ code ++
      [op .silentFailsOff, .branch (if negative then .ifError else .ifNotError) []
        [op .pop, op (if negative then .pop else .popCurrPos), op .pushUndefined]
        [op .pop, op (if negative then .popCurrPos else .pop), op .pushFailed]] := by
    cases negative <;>
    · obtain ⟨test, p₁, htest, hwhole⟩ := bind_eq_ok.mp h
      obtain ⟨-, rfl, rfl⟩ := branch_eq_ok.mp htest
      exact (pure_eq_ok.mp hwhole).symm
  obtain ⟨rfl, rfl⟩ := hwhole
  refine ⟨rfl, fun x hx => ⟨by cases negative <;> simp [hx.wellFormed],
    fun heffect hsize stack env hheight hb => ?_⟩⟩
  simp only [size_append, size_cons, length_assemble_op] at hsize
  cases negative <;> simp [StackEffect.plain] at heffect
  · exact pushes_simpleAnd fun start => hx.above (by grind) (by omega) hheight hb _
  · exact pushes_simpleNot fun start => hx.above (by grind) (by omega) hheight hb _

theorem zeroOrMore_means (h : zeroOrMore code p = .ok (whole, q)) :
    q = p ∧ ∀ x : Env → Run (State σ) Slot, Means E invoke rounds code (height + 1) scope x →
      Means E invoke rounds whole height scope fun env => Peg.zeroOrMore rounds (x env) := by
  obtain ⟨again, p₁, hagain, hwhole⟩ := bind_eq_ok.mp h
  obtain ⟨hbalance, rfl, rfl⟩ := loop_eq_ok.mp hagain
  obtain ⟨rfl, rfl⟩ := pure_eq_ok.mp hwhole
  refine ⟨rfl, fun x hx => ⟨by simp [hx.wellFormed], fun _ hsize stack env hheight hb =>
    pushes_zeroOrMore fun v => hx.above ?_ ?_ hheight hb v⟩⟩
  · simp [StackEffect.plain] at hbalance
    grind
  · simp only [size_append, size_cons, length_assemble_op] at hsize
    omega

theorem oneOrMore_means (h : oneOrMore code p = .ok (whole, q)) :
    q = p ∧ ∀ x : Env → Run (State σ) Slot, Means E invoke rounds code (height + 1) scope x →
      Means E invoke rounds whole height scope fun env => Peg.oneOrMore (Peg.machine E) rounds (x env) := by
  obtain ⟨again, p₁, hagain, hrest⟩ := bind_eq_ok.mp h
  obtain ⟨hbalance, rfl, rfl⟩ := loop_eq_ok.mp hagain
  obtain ⟨test, p₂, htest, hwhole⟩ := bind_eq_ok.mp hrest
  obtain ⟨-, rfl, rfl⟩ := branch_eq_ok.mp htest
  obtain ⟨rfl, rfl⟩ := pure_eq_ok.mp hwhole
  refine ⟨rfl, fun x hx => ⟨by simp [hx.wellFormed], fun _ hsize stack env hheight hb =>
    pushes_oneOrMore fun v => hx.above ?_ ?_ hheight hb v⟩⟩
  · simp [StackEffect.plain] at hbalance
    grind
  · simp only [size_append, size_cons, length_assemble_op] at hsize
    omega

/-- The delimiter and the element of a range see no labels. -/
theorem delimited_means {between : Code} (h : delimited between code p = .ok (whole, q)) :
    q = p ∧ ∀ d x : Env → Run (State σ) Slot,
      Means E invoke rounds between (height + 1) [] d →
      Means E invoke rounds code (height + 1) [] x →
      Means E invoke rounds whole height []
        fun _ => Peg.delimited (Peg.machine E) (d []) (x []) := by
  obtain ⟨inner, p₁, hinner, hrest⟩ := bind_eq_ok.mp h
  obtain ⟨outer, p₂, houter, hwhole⟩ := bind_eq_ok.mp hrest
  obtain ⟨-, rfl, rfl⟩ := branch_eq_ok.mp hinner
  obtain ⟨hbalance, rfl, rfl⟩ := branch_eq_ok.mp houter
  obtain ⟨rfl, rfl⟩ := pure_eq_ok.mp hwhole
  refine ⟨rfl, fun d x hd hx => ⟨by simp [restoreAndFail, hd.wellFormed, hx.wellFormed],
    fun heffect hsize stack env hheight _ => ?_⟩⟩
  simp [StackEffect.plain, restoreAndFail] at heffect hbalance
  simp only [size_append, size_cons, size_nil, length_assemble_op, length_assemble_branch] at hsize
  exact pushes_delimited (fun start => hd.above (by grind) (by omega) hheight .nil _)
    fun start => hx.above (by grind) (by omega) hheight .nil _

theorem range_means {min : UInt32} {max : Option UInt32} {first further : Code} {base : Nat}
    (hbase : (if 0 < min then height + 1 else height) = base)
    (h : range min max first further p = .ok (whole, q)) :
    q = p ∧ ∀ (scope : Scope) (x y : Env → Run (State σ) Slot),
      Means E invoke rounds first (base + 1) [] x →
      Means E invoke rounds further (base + 1) [] y →
      Means E invoke rounds whole height scope
        fun _ => Peg.range (Peg.machine E) rounds min max (x []) (y []) := by
  have hbounded : ∃ bounded : Code, (bounded.effect = 1 → further.effect = 1) ∧
      further.size ≤ bounded.size ∧ (further.WellFormed → bounded.WellFormed) ∧
      (∀ (y : Run (State σ) Slot) items stack,
        Pushes E invoke rounds further (.value (.array items) :: stack) y →
        Pushes E invoke rounds bounded (.value (.array items) :: stack)
          (Peg.bounded (Peg.machine E) max y items)) ∧
      (do
        let loop ← appendLoop bounded
        let main := [op .pushEmptyArray] ++ first ++ [loop, op .pop]
        if min = 0 then return main
        let test ← branch .ifArrlenMin [min] restoreAndFail [op .nip]
        return [op .pushCurrPos] ++ main ++ [test]) p = .ok (whole, q) := by
    cases max with
    | none => exact ⟨further, id, le_rfl, id, fun _ _ _ => id, h⟩
    | some max =>
      obtain ⟨test, p₁, htest, hrest⟩ := bind_eq_ok.mp h
      obtain ⟨hbalance, rfl, rfl⟩ := branch_eq_ok.mp htest
      refine ⟨[.branch .ifArrlenMax [max] [op .pushFailed] further], fun _ => hbalance.symm, ?_,
        fun hwf => by simp [hwf], fun y items stack => pushes_bounded max, hrest⟩
      simp only [size_cons, length_assemble_branch]
      omega
  obtain ⟨bounded, hfurtherEffect, hfurtherSize, hwf, hpushes, hrest⟩ := hbounded
  obtain ⟨again, p₁, hagain, hmain⟩ := bind_eq_ok.mp hrest
  obtain ⟨hbalance, rfl, rfl⟩ := loop_eq_ok.mp hagain
  have hfurther : further.effect = 1 := by
    refine hfurtherEffect ?_
    simp [StackEffect.plain] at hbalance
    grind
  split at hmain
  · next hmin =>
    obtain ⟨rfl, rfl⟩ := pure_eq_ok.mp hmain
    subst hmin
    obtain rfl : height = base := hbase
    refine ⟨rfl, fun scope x y hx hy => ⟨by simp [hx.wellFormed, hwf hy.wellFormed],
      fun heffect hsize stack env hheight _ => ?_⟩⟩
    simp [StackEffect.plain] at heffect
    simp only [size_append, size_cons, size_nil, length_assemble_op, length_assemble_loop] at hsize
    exact pushes_range_zero (fun v => hx.above (by grind) (by omega) hheight .nil v)
      fun items => hpushes _ items _ (hy.above hfurther (by omega) hheight .nil _)
  · next hmin =>
    have hpos : 0 < min := UInt32.pos_iff_ne_zero.mpr hmin
    obtain ⟨test, p₂, htest, hwhole⟩ := bind_eq_ok.mp hmain
    obtain ⟨-, rfl, rfl⟩ := branch_eq_ok.mp htest
    obtain ⟨rfl, rfl⟩ := pure_eq_ok.mp hwhole
    rw [if_pos hpos] at hbase
    subst hbase
    refine ⟨rfl, fun scope x y hx hy =>
      ⟨by simp [restoreAndFail, hx.wellFormed, hwf hy.wellFormed],
        fun heffect hsize stack env hheight _ => ?_⟩⟩
    simp [StackEffect.plain, restoreAndFail] at heffect
    simp only [size_append, size_cons, size_nil, length_assemble_op, length_assemble_loop] at hsize
    exact pushes_range_min
      (fun start v => hx.above (by grind) (by omega) (by simp [hheight]) .nil v)
      fun start items => hpushes _ items _ (hy.above hfurther (by omega) (by simp [hheight]) .nil _)

/-! ## Sequences -/

/-- The code of the elements of a sequence means the elements, each in the scope that the one
before left. -/
inductive ElementsMean (E : Setting σ) (invoke : Nat → Run (State σ) Slot) (rounds : Nat)
    (g : Grammar) (eval : NodeId → Env → Run (State σ) Slot) :
    List Code → List NodeId → Nat → Scope → Scope → Prop
  /-- There are no elements. -/
  | nil {height : Nat} {scope : Scope} : ElementsMean E invoke rounds g eval [] [] height scope scope
  /-- The code of the first element means it, and so do those of the others. -/
  | cons {code : Code} {codes : List Code} {e : NodeId} {es : List NodeId} {height : Nat}
      {scope scope' inner : Scope} (first : Means E invoke rounds code height scope (eval e))
      (after : code.effect = 1 → scope' = scope.after g e height)
      (rest : ElementsMean E invoke rounds g eval codes es (height + 1) scope' inner) :
      ElementsMean E invoke rounds g eval (code :: codes) (e :: es) height scope inner

section

variable {g : Grammar} {eval : NodeId → Env → Run (State σ) Slot} {inner : Scope}
  {codes : List Code} {es : List NodeId} {tail : Code} {stack : List Slot} {start : Nat}

theorem elements_mean {node : NodeId → Nat → Scope → Generate (Code × Scope)}
    (hnode : ∀ e height scope p code scope' q, node e height scope p = .ok ((code, scope'), q) →
      E.program.Extends q → E.program.Extends p ∧
        Means E invoke rounds code height scope (eval e) ∧
        (code.effect = 1 → scope' = scope.after g e height))
    (h : elements node es height scope p = .ok ((codes, inner), q)) (hq : E.program.Extends q) :
    E.program.Extends p ∧ ElementsMean E invoke rounds g eval codes es height scope inner := by
  induction es generalizing height scope p codes with
  | nil =>
    obtain ⟨heq, rfl⟩ := pure_eq_ok.mp h
    cases heq
    exact ⟨hq, .nil⟩
  | cons e es ih =>
    obtain ⟨⟨code, scope'⟩, p₁, hfirst, hrest⟩ := bind_eq_ok.mp h
    obtain ⟨⟨codes', inner'⟩, p₂, hothers, hwhole⟩ := bind_eq_ok.mp hrest
    obtain ⟨heq, rfl⟩ := pure_eq_ok.mp hwhole
    cases heq
    obtain ⟨hp₁, hothers⟩ := ih hothers
    obtain ⟨hp, hmeans, hafter⟩ := hnode _ _ _ _ _ _ _ hfirst hp₁
    exact ⟨hp, .cons hmeans hafter hothers⟩

/-- The end of a sequence runs on the values of its elements. -/
theorem sequenceEnd_pushes {n : Nat} {action? : Option String} (hE : E.program.Addressable)
    (h : sequenceEnd n action? inner height p = .ok (tail, q)) (hq : E.program.Extends q) :
    E.program.Extends p ∧ (height + tail.size < 2 ^ 32 → ∀ (stack values : List Slot) start env,
      values.length = n → (values ++ .pos start :: stack).length = height →
      Binds (values ++ .pos start :: stack) inner env →
        Instr.execAll E invoke rounds tail (values ++ .pos start :: stack) =
          (· :: stack) <$> Peg.sequenceEnd (Peg.machine E) action? start values env) := by
  cases action? with
  | none =>
    obtain ⟨rfl, rfl⟩ := pure_eq_ok.mp h
    refine ⟨hq, fun hsize stack values start env hn hheight _ => ?_⟩
    have hlt : n < 2 ^ 32 := by
      rw [List.length_append, List.length_cons] at hheight
      omega
    rw [execAll_wrap (by rw [UInt32.toNat_ofNat_of_lt' hlt, hn]), Peg.sequenceEnd, map_pure]
  | some source =>
    obtain ⟨f, p₁, hf, hrest⟩ := bind_eq_ok.mp h
    obtain ⟨run, p₂, hrun, hwhole⟩ := bind_eq_ok.mp hrest
    obtain ⟨rfl, rfl⟩ := pure_eq_ok.mp hwhole
    obtain ⟨-, -, rfl, -⟩ := call_eq_ok hrun
    obtain ⟨hp, hf⟩ := action_eq_ok hE hf hq
    refine ⟨hp, fun hsize stack values start env hn hheight hb => ?_⟩
    simp only [size_cons] at hsize
    have hlt : n < 2 ^ 32 := by
      rw [List.length_append, List.length_cons] at hheight
      omega
    refine execAll_callOnElements (by rw [UInt32.toNat_ofNat_of_lt' hlt, hn]) ?_
    rw [hn]
    exact call_calls hrun hf (by omega) hheight hb hlt

theorem wellFormed_sequenceEnd {n : Nat} {action? : Option String}
    (h : sequenceEnd n action? inner height p = .ok (tail, q)) : tail.WellFormed := by
  cases action? with
  | none =>
    obtain ⟨rfl, rfl⟩ := pure_eq_ok.mp h
    simp
  | some source =>
    obtain ⟨f, p₁, hf, hrest⟩ := bind_eq_ok.mp h
    obtain ⟨run, p₂, hrun, hwhole⟩ := bind_eq_ok.mp hrest
    obtain ⟨rfl, rfl⟩ := pure_eq_ok.mp hwhole
    simp [wellFormed_call hrun]

theorem wellFormed_nest (hes : ElementsMean E invoke rounds g eval codes es height scope inner)
    {place : Nat} (htail : tail.WellFormed) (h : nest tail place codes p = .ok (whole, q)) :
    whole.WellFormed := by
  induction hes generalizing place whole q with
  | nil =>
    obtain ⟨rfl, rfl⟩ := pure_eq_ok.mp h
    exact htail
  | cons hfirst _ _ ih =>
    obtain ⟨nested, p₁, hnested, hrest⟩ := bind_eq_ok.mp h
    obtain ⟨test, p₂, htest, hwhole⟩ := bind_eq_ok.mp hrest
    obtain ⟨-, rfl, rfl⟩ := branch_eq_ok.mp htest
    obtain ⟨rfl, rfl⟩ := pure_eq_ok.mp hwhole
    cases place <;> simp [cleanup, hfirst.wellFormed, ih hnested]

theorem effect_cleanup (place : Nat) :
    effect (cleanup (place + 1)) = -(UInt32.ofNat (place + 1)).toInt32 := by
  cases place with
  | zero => rfl
  | succ place =>
    simp [cleanup, StackEffect.plain]

theorem pools_nest {place : Nat} (h : nest tail place codes p = .ok (whole, q)) : q = p := by
  induction codes generalizing place whole q with
  | nil => exact (pure_eq_ok.mp h).2
  | cons code codes ih =>
    obtain ⟨nested, p₁, hnested, hrest⟩ := bind_eq_ok.mp h
    obtain ⟨test, p₂, htest, hwhole⟩ := bind_eq_ok.mp hrest
    obtain ⟨-, -, rfl⟩ := branch_eq_ok.mp htest
    rw [(pure_eq_ok.mp hwhole).2, ih hnested]

/-- The elements of a sequence run one after the other, and then what stands at its end. -/
theorem nest_pushes {finish : List Slot → Env → Run (State σ) Slot}
    (hes : ElementsMean E invoke rounds g eval codes es height scope inner) {values : List Slot}
    {env : Env} (h : nest tail values.length codes p = .ok (whole, q))
    (heffect : whole.effect = -(UInt32.ofNat values.length).toInt32)
    (hsize : height + whole.size < 2 ^ 32)
    (hheight : (values ++ .pos start :: stack).length = height)
    (hb : Binds (values ++ .pos start :: stack) scope env)
    (htail : height + es.length + tail.size < 2 ^ 32 → ∀ (values' : List Slot) env',
      values'.length = values.length + es.length → Binds (values' ++ .pos start :: stack) inner env' →
        Instr.execAll E invoke rounds tail (values' ++ .pos start :: stack) =
          (· :: stack) <$> finish values' env') :
    Instr.execAll E invoke rounds whole (values ++ .pos start :: stack) =
      (· :: stack) <$> Peg.elements (Peg.machine E) eval g start finish es values env := by
  induction hes generalizing values env whole q with
  | nil =>
    obtain ⟨rfl, rfl⟩ := pure_eq_ok.mp h
    exact htail hsize values env rfl hb
  | @cons code codes e es height scope scope' inner hfirst hscope _ ih =>
    obtain ⟨nested, p₁, hnested, hrest⟩ := bind_eq_ok.mp h
    obtain ⟨test, p₂, htest, hwhole⟩ := bind_eq_ok.mp hrest
    obtain ⟨hbalance, rfl, rfl⟩ := branch_eq_ok.mp htest
    obtain ⟨rfl, rfl⟩ := pure_eq_ok.mp hwhole
    rw [effect_cleanup] at hbalance
    have hcode : code.effect = 1 := by
      simp [hbalance] at heffect
      grind
    simp only [size_append, size_cons, size_nil, length_assemble_branch, List.length_nil] at hsize
    have hvalues : values.length < height := by
      rw [← hheight, List.length_append, List.length_cons]
      omega
    rw [Peg.elements]
    refine execAll_element (by omega) (hfirst.pushes hcode (by omega) _ _ hheight hb) fun v => ?_
    refine @ih _ _ (v :: values) _ hnested hbalance (by omega) (by simp [← hheight]) ?_ ?_
    · have hafter := hb.after g e v
      rwa [hheight, ← hscope hcode] at hafter
    · intro htailSize values' env' hvalues'
      simp only [List.length_cons] at hvalues' htail
      exact htail (by omega) values' env' (by omega)

/-- A sequence keeps the offset where it began below the values of its elements. -/
theorem sequence_means {action? : Option String} {nested : Code} {p₁ : Pools}
    (hE : E.program.Addressable)
    (hes : ElementsMean E invoke rounds g eval codes es (height + 1) scope inner)
    (htail : sequenceEnd es.length action? inner (height + 1 + es.length) p = .ok (tail, p₁))
    (h : nest tail 0 codes p₁ = .ok (nested, q)) (hq : E.program.Extends q) :
    Means E invoke rounds (op .pushCurrPos :: nested) height scope fun env =>
      Peg.here (Peg.machine E) >>= fun start => Peg.elements (Peg.machine E) eval g start
        (Peg.sequenceEnd (Peg.machine E) action? start) es [] env := by
  obtain rfl := pools_nest h
  refine ⟨by simp [wellFormed_nest hes (wellFormed_sequenceEnd htail) h],
    fun heffect hsize stack env hheight hb => ?_⟩
  funext s
  simp [StackEffect.plain] at heffect
  simp only [size_cons, length_assemble_op] at hsize
  have hstack : ([] ++ .pos s.pos :: stack : List Slot).length = height + 1 := by simp [hheight]
  have hnest : Instr.execAll E invoke rounds nested (.pos s.pos :: stack) =
      (· :: stack) <$> Peg.elements (Peg.machine E) eval g s.pos
        (Peg.sequenceEnd (Peg.machine E) action? s.pos) es [] env := by
    refine nest_pushes hes h heffect (by omega) hstack (hb.push _)
      fun htailSize values env' hvalues hb' => ?_
    refine (sequenceEnd_pushes hE htail hq).2 htailSize stack values s.pos env'
      (by simpa using hvalues) ?_ hb'
    simp only [List.length_append, List.length_cons, List.length_nil] at hvalues hstack ⊢
    omega
  simp only [Instr.execAll_cons, Run.bind_apply, exec_pushCurrPos, hnest, Run.map_apply,
    Peg.here_apply, Peg.machine_pos]

end

/-! ## Nodes -/

section

variable {g : Grammar} {f : Facts}

theorem alternatives_mean {child : NodeId → Generate Code}
    {eval : NodeId → Env → Run (State σ) Slot}
    (hchild : ∀ e p code q, child e p = .ok (code, q) → E.program.Extends q →
      E.program.Extends p ∧ Means E invoke rounds code height scope (eval e))
    {es : List NodeId} {codes : List Code} (h : es.mapM child p = .ok (codes, q))
    (hq : E.program.Extends q) :
    E.program.Extends p ∧ List.Forall₂ (fun code x => Means E invoke rounds code height scope x)
      codes (es.map eval) := by
  induction es generalizing p codes with
  | nil =>
    obtain ⟨rfl, rfl⟩ := pure_eq_ok.mp h
    exact ⟨hq, .nil⟩
  | cons e es ih =>
    rw [List.mapM_cons] at h
    obtain ⟨code, p₁, hfirst, hrest⟩ := bind_eq_ok.mp h
    obtain ⟨codes', p₂, hothers, hwhole⟩ := bind_eq_ok.mp hrest
    obtain ⟨rfl, rfl⟩ := pure_eq_ok.mp hwhole
    obtain ⟨hp₁, hothers⟩ := ih hothers
    obtain ⟨hp, hfirst⟩ := hchild _ _ _ _ hfirst hp₁
    exact ⟨hp, .cons hfirst hothers⟩

/-- A rule is invoked by its index. -/
theorem pushes_rule {index : Nat} (hindex : index < 2 ^ 32) (stack : List Slot) :
    Pushes E invoke rounds [op1 .rule (UInt32.ofNat index)] stack (invoke index) := by
  funext s
  simp only [Instr.execAll_cons, Instr.execAll_nil, Instr.exec, op1, if_true, Instr.arg_one,
    UInt32.toNat_ofNat_of_lt' hindex, Run.bind_apply, Run.map_apply, Run.pure_apply]
  rcases invoke index s with - | ⟨e | v, t⟩ <;> rfl

/-- Code that leaves the labels in scope as they are. -/
theorem inScope_eq_ok {gen : Generate Code} {scope' : Scope} :
    (gen >>= fun code => pure (code, scope)) p = .ok ((code, scope'), q) ↔
      gen p = .ok (code, q) ∧ scope' = scope := by
  rw [bind_eq_ok]
  constructor
  · rintro ⟨c, p', hgen, hpure⟩
    obtain ⟨heq, rfl⟩ := pure_eq_ok.mp hpure
    cases heq
    exact ⟨hgen, rfl⟩
  · rintro ⟨hgen, rfl⟩
    exact ⟨code, q, hgen, rfl⟩

theorem node_means (hE : E.program.Addressable) (hf : f.Resolves g)
    (hrules : g.rules.length ≤ 2 ^ 32) {depth : Nat} {id : NodeId} {action? : Option String}
    {scope' : Scope}
    (h : node g f depth id height scope action? p = .ok ((code, scope'), q))
    (hq : E.program.Extends q) :
    E.program.Extends p ∧
      Means E invoke rounds code height scope (fun env =>
        Peg.eval (Peg.machine E) E.input g invoke rounds depth id env action?) ∧
      ((action?.isSome → takesOver (g.shape id) = false) → code.effect = 1 →
        scope' = scope.after g id height) := by
  induction depth generalizing id height scope action? p code scope' q with
  | zero =>
    obtain ⟨heq, rfl⟩ := pure_eq_ok.mp h
    cases heq
    exact ⟨hq, ⟨by simp, fun heffect => absurd heffect (by decide)⟩, fun _ heffect =>
      absurd heffect (by decide)⟩
  | succ depth ih =>
    have hchild (e : NodeId) (height : Nat) (scope : Scope) (p : Pools) (c : Code) (q : Pools)
        (h : ((·.1) <$> node g f depth e height scope none) p = .ok (c, q))
        (hq : E.program.Extends q) : E.program.Extends p ∧ Means E invoke rounds c height scope
          fun env => Peg.eval (Peg.machine E) E.input g invoke rounds depth e env none := by
      obtain ⟨⟨c', scope'⟩, hnode, rfl⟩ := map_eq_ok.mp h
      exact (ih hnode hq).imp_right And.left
    have hscope : ∀ {shape : Shape}, (∀ label e, shape ≠ .labeled (some label) e) →
        g.shape id = shape → scope = scope.after g id height := by
      intro shape hne hshape
      unfold Scope.after
      split
      · next label e hlabeled => exact absurd (hshape.symm.trans hlabeled) (hne label e)
      · rfl
    rw [node, level] at h
    simp only [Peg.eval, Peg.level]
    cases hshape : g.shape id with
    | named name e =>
      simp only [hshape] at h ⊢
      obtain ⟨expected, p₁, hexpected, hrest⟩ := bind_eq_ok.mp h
      obtain ⟨c, p₂, hc, hrest⟩ := bind_eq_ok.mp hrest
      obtain ⟨hwhole, rfl⟩ := inScope_eq_ok.mp hrest
      obtain ⟨rfl, hmeans⟩ := named_means hwhole
      obtain ⟨hp₁, hx⟩ := hchild _ _ _ _ _ _ hc hq
      obtain ⟨hp, hexpected⟩ := expectation_eq_ok hE hexpected hp₁
      exact ⟨hp, hmeans _ _ hexpected hx, fun _ _ => hscope (by simp) hshape⟩
    | choice alternatives =>
      simp only [hshape] at h ⊢
      obtain ⟨codes, p₁, hcodes, hrest⟩ := bind_eq_ok.mp h
      obtain ⟨hwhole, rfl⟩ := inScope_eq_ok.mp hrest
      obtain rfl := pools_choice hwhole
      obtain ⟨hp, hxs⟩ := alternatives_mean (fun e => hchild e height scope') hcodes hq
      have hmeans := choice_means hwhole hxs
      simp only [List.map_map] at hmeans
      exact ⟨hp, hmeans, fun _ _ => hscope (by simp) hshape⟩
    | action e source =>
      simp only [hshape] at h ⊢
      split at h
      · next htakes =>
        obtain ⟨⟨c, inner⟩, p₁, hc, hwhole⟩ := bind_eq_ok.mp h
        obtain ⟨heq, rfl⟩ := pure_eq_ok.mp hwhole
        cases heq
        obtain ⟨hp, hx, -⟩ := ih hc hq
        simp only [htakes, if_true]
        exact ⟨hp, hx, fun _ _ => hscope (by simp) hshape⟩
      · next htakes =>
        obtain ⟨⟨c, inner⟩, p₁, hc, hrest⟩ := bind_eq_ok.mp h
        obtain ⟨hwhole, rfl⟩ := inScope_eq_ok.mp hrest
        obtain ⟨hp₁, hmeans⟩ := actionAround_means hE hwhole hq
        obtain ⟨hp, hx, hinner⟩ := ih hc hp₁
        simp only [htakes]
        exact ⟨hp, hmeans g e _ _ hx (hinner fun _ => by simpa using htakes),
          fun _ _ => hscope (by simp) hshape⟩
    | sequence es =>
      simp only [hshape] at h ⊢
      obtain ⟨⟨codes, inner⟩, p₁, hcodes, hrest⟩ := bind_eq_ok.mp h
      obtain ⟨tail, p₂, htail, hrest⟩ := bind_eq_ok.mp hrest
      obtain ⟨nested, p₃, hnested, hwhole⟩ := bind_eq_ok.mp hrest
      obtain ⟨heq, rfl⟩ := pure_eq_ok.mp hwhole
      cases heq
      obtain rfl := pools_nest hnested
      obtain ⟨hp₁, -⟩ := @sequenceEnd_pushes _ E invoke rounds _ _ _ _ _ _ _ hE htail hq
      obtain ⟨hp, helements⟩ := elements_mean (fun e height scope p code scope' q hnode hq => by
        obtain ⟨hp, hx, hafter⟩ := ih hnode hq
        exact ⟨hp, hx, hafter (by simp)⟩) hcodes hp₁
      refine ⟨hp, sequence_means hE helements htail hnested hq, fun htakes _ => ?_⟩
      split
      · next hsome =>
        have hnil : es = [] := by simpa [takesOver] using htakes hsome
        subst hnil
        cases helements
        exact hscope (by simp) hshape
      · exact hscope (by simp) hshape
    | labeled label e =>
      simp only [hshape] at h ⊢
      obtain ⟨c, p₁, hc, hwhole⟩ := bind_eq_ok.mp h
      obtain ⟨heq, rfl⟩ := pure_eq_ok.mp hwhole
      cases heq
      obtain ⟨hp, hx⟩ := hchild _ _ _ _ _ _ hc hq
      refine ⟨hp, hx, fun _ _ => ?_⟩
      simp only [Scope.after, hshape]
      cases label <;> rfl
    | text e =>
      simp only [hshape] at h ⊢
      obtain ⟨c, p₁, hc, hrest⟩ := bind_eq_ok.mp h
      obtain ⟨hwhole, rfl⟩ := inScope_eq_ok.mp hrest
      obtain ⟨rfl, hmeans⟩ := text_means hwhole
      obtain ⟨hp, hx⟩ := hchild _ _ _ _ _ _ hc hq
      exact ⟨hp, hmeans _ hx, fun _ _ => hscope (by simp) hshape⟩
    | simpleAnd e =>
      simp only [hshape] at h ⊢
      obtain ⟨c, p₁, hc, hrest⟩ := bind_eq_ok.mp h
      obtain ⟨hwhole, rfl⟩ := inScope_eq_ok.mp hrest
      obtain ⟨rfl, hmeans⟩ := simplePredicate_means hwhole
      obtain ⟨hp, hx⟩ := hchild _ _ _ _ _ _ hc hq
      exact ⟨hp, hmeans _ hx, fun _ _ => hscope (by simp) hshape⟩
    | simpleNot e =>
      simp only [hshape] at h ⊢
      obtain ⟨c, p₁, hc, hrest⟩ := bind_eq_ok.mp h
      obtain ⟨hwhole, rfl⟩ := inScope_eq_ok.mp hrest
      obtain ⟨rfl, hmeans⟩ := simplePredicate_means hwhole
      obtain ⟨hp, hx⟩ := hchild _ _ _ _ _ _ hc hq
      exact ⟨hp, hmeans _ hx, fun _ _ => hscope (by simp) hshape⟩
    | optional e =>
      simp only [hshape] at h ⊢
      obtain ⟨c, p₁, hc, hrest⟩ := bind_eq_ok.mp h
      obtain ⟨hwhole, rfl⟩ := inScope_eq_ok.mp hrest
      obtain ⟨rfl, hmeans⟩ := optional_means hwhole
      obtain ⟨hp, hx⟩ := hchild _ _ _ _ _ _ hc hq
      exact ⟨hp, hmeans _ hx, fun _ _ => hscope (by simp) hshape⟩
    | zeroOrMore e =>
      simp only [hshape] at h ⊢
      obtain ⟨c, p₁, hc, hrest⟩ := bind_eq_ok.mp h
      obtain ⟨hwhole, rfl⟩ := inScope_eq_ok.mp hrest
      obtain ⟨rfl, hmeans⟩ := zeroOrMore_means hwhole
      obtain ⟨hp, hx⟩ := hchild _ _ _ _ _ _ hc hq
      exact ⟨hp, hmeans _ hx, fun _ _ => hscope (by simp) hshape⟩
    | oneOrMore e =>
      simp only [hshape] at h ⊢
      obtain ⟨c, p₁, hc, hrest⟩ := bind_eq_ok.mp h
      obtain ⟨hwhole, rfl⟩ := inScope_eq_ok.mp hrest
      obtain ⟨rfl, hmeans⟩ := oneOrMore_means hwhole
      obtain ⟨hp, hx⟩ := hchild _ _ _ _ _ _ hc hq
      exact ⟨hp, hmeans _ hx, fun _ _ => hscope (by simp) hshape⟩
    | range min max e delimiter =>
      simp only [hshape] at h ⊢
      split at h
      · next hnone =>
        obtain ⟨heq, rfl⟩ := pure_eq_ok.mp h
        cases heq
        refine ⟨hq, ⟨by simp, fun _ _ stack _ _ _ => ?_⟩, fun _ _ => hscope (by simp) hshape⟩
        rw [if_pos hnone]
        rfl
      · next hsome =>
        generalize hbase : (if 0 < min then height + 1 else height) = base at h
        obtain ⟨first, p₁, hfirst, hrest⟩ := bind_eq_ok.mp h
        cases delimiter with
        | none =>
          simp only [hsome, if_false]
          obtain ⟨hwhole, rfl⟩ := inScope_eq_ok.mp hrest
          obtain ⟨rfl, hmeans⟩ := range_means hbase hwhole
          obtain ⟨hp, hx⟩ := hchild _ _ _ _ _ _ hfirst hq
          have hrange := hmeans scope' _ _ hx hx
          exact ⟨hp, hrange, fun _ _ => hscope (by simp) hshape⟩
        | some d =>
          simp only [hsome, if_false]
          obtain ⟨between, p₂, hbetween, hrest⟩ := bind_eq_ok.mp hrest
          obtain ⟨again, p₃, hagain, hrest⟩ := bind_eq_ok.mp hrest
          obtain ⟨further, p₄, hfurther, hrest⟩ := bind_eq_ok.mp hrest
          obtain ⟨hwhole, rfl⟩ := inScope_eq_ok.mp hrest
          obtain ⟨rfl, hmeans⟩ := range_means hbase hwhole
          obtain ⟨rfl, hfurther⟩ := delimited_means hfurther
          obtain ⟨hp₂, hagain⟩ := hchild _ _ _ _ _ _ hagain hq
          obtain ⟨hp₁, hbetween⟩ := hchild _ _ _ _ _ _ hbetween hp₂
          obtain ⟨hp, hx⟩ := hchild _ _ _ _ _ _ hfirst hp₁
          have hrange := hmeans scope' _ _ hx (hfurther _ _ hbetween hagain)
          exact ⟨hp, hrange, fun _ _ => hscope (by simp) hshape⟩
    | semanticAnd source =>
      simp only [hshape] at h ⊢
      obtain ⟨hwhole, rfl⟩ := inScope_eq_ok.mp h
      obtain ⟨hp, hmeans⟩ := semanticPredicate_means hE hwhole hq
      exact ⟨hp, hmeans, fun _ _ => hscope (by simp) hshape⟩
    | semanticNot source =>
      simp only [hshape] at h ⊢
      obtain ⟨hwhole, rfl⟩ := inScope_eq_ok.mp h
      obtain ⟨hp, hmeans⟩ := semanticPredicate_means hE hwhole hq
      exact ⟨hp, hmeans, fun _ _ => hscope (by simp) hshape⟩
    | ruleRef name =>
      simp only [hshape] at h ⊢
      cases htarget : f.target? id with
      | none =>
        rw [htarget] at h
        cases h
      | some rule =>
        rw [htarget] at h
        obtain ⟨heq, rfl⟩ := pure_eq_ok.mp h
        cases heq
        have hindex := hf id name rule hshape htarget
        have hlt : rule < g.rules.length := by
          rw [Grammar.ruleIndex?, List.findIdx?_eq_some_iff_getElem] at hindex
          exact hindex.choose
        refine ⟨hq, ⟨by simp, fun _ _ stack _ _ _ => ?_⟩, fun _ _ => hscope (by simp) hshape⟩
        rw [hindex]
        exact pushes_rule (by omega) stack
    | literal value ignoreCase =>
      simp only [hshape] at h ⊢
      obtain ⟨hwhole, rfl⟩ := inScope_eq_ok.mp h
      obtain ⟨hp, hmeans⟩ := literal_means hE hwhole hq
      exact ⟨hp, hmeans, fun _ _ => hscope (by simp) hshape⟩
    | charClass parts inverted ignoreCase raw =>
      simp only [hshape] at h ⊢
      obtain ⟨hwhole, rfl⟩ := inScope_eq_ok.mp h
      obtain ⟨hp, hmeans⟩ := charClass_means hE hwhole hq
      exact ⟨hp, hmeans, fun _ _ => hscope (by simp) hshape⟩
    | regex value ignoreCase multiLine raw =>
      simp only [hshape] at h ⊢
      obtain ⟨hwhole, rfl⟩ := inScope_eq_ok.mp h
      obtain ⟨hp, hmeans⟩ := regex_means hE hwhole hq
      exact ⟨hp, hmeans, fun _ _ => hscope (by simp) hshape⟩
    | any =>
      simp only [hshape] at h ⊢
      obtain ⟨e, p₁, he, hrest⟩ := bind_eq_ok.mp h
      obtain ⟨hwhole, rfl⟩ := inScope_eq_ok.mp hrest
      obtain ⟨rfl, rfl⟩ := terminal_eq_ok hwhole
      obtain ⟨hp, he⟩ := expectation_eq_ok hE he hq
      refine ⟨hp, ⟨by simp, fun _ _ stack _ _ _ => pushes_any he (fun pos => ?_) stack⟩,
        fun _ _ => hscope (by simp) hshape⟩
      simp only [Peg.taken?, decide_eq_true_eq]
    | epsilon =>
      simp only [hshape] at h ⊢
      obtain ⟨c, p₁, hc, hwhole⟩ := bind_eq_ok.mp h
      obtain ⟨heq, rfl⟩ := pure_eq_ok.mp hwhole
      cases heq
      obtain ⟨hp, hc⟩ := string_eq_ok hE hc hq
      exact ⟨hp, ⟨by simp, fun _ _ stack _ _ _ => pushes_emptyText hc fun pos => rfl⟩,
        fun _ _ => hscope (by simp) hshape⟩
    | code source =>
      simp only [hshape] at h ⊢
      obtain ⟨hwhole, rfl⟩ := inScope_eq_ok.mp h
      obtain ⟨hp, hmeans⟩ := codeTerminal_means hE hwhole hq
      exact ⟨hp, hmeans, fun _ _ => hscope (by simp) hshape⟩

end

end Generate

end PegMachine
