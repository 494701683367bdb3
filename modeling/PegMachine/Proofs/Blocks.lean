import Mathlib.Data.List.Forall2
import PegMachine.Proofs.Peg
import PegMachine.Proofs.Structured

/-!
# What generated blocks do

Each way of combining expressions has its block of code. Here every block is run: if the code of
the parts pushes what the parts evaluate to, the block pushes what the whole evaluates to, on the
same state and with the same fuel.
-/

namespace PegMachine

open Code

variable {σ : Type} {E : Setting σ} {invoke : Nat → Run (State σ) Slot} {rounds : Nat}

namespace Instr

@[simp] theorem execAll_nil (stack : List Slot) :
    execAll E invoke rounds [] stack = pure stack := by
  rw [execAll]

@[simp] theorem execAll_cons (i : Instr) (rest : Code) (stack : List Slot) :
    execAll E invoke rounds (i :: rest) stack =
      exec E invoke rounds i stack >>= execAll E invoke rounds rest := by
  rw [execAll]

@[simp] theorem execAll_append (a b : Code) (stack : List Slot) :
    execAll E invoke rounds (a ++ b) stack =
      execAll E invoke rounds a stack >>= execAll E invoke rounds b := by
  induction a generalizing stack with
  | nil => simp
  | cons i rest ih =>
    rw [List.cons_append, execAll_cons, execAll_cons, bind_assoc]
    congr
    funext stack
    exact ih stack

@[simp] theorem arg_one (w : UInt32) (rest : List UInt32) : arg (w :: rest) 1 = w.toNat := rfl

end Instr

/-- Code pushes what a run gives. -/
def Pushes (E : Setting σ) (invoke : Nat → Run (State σ) Slot) (rounds : Nat) (code : Code)
    (stack : List Slot) (x : Run (State σ) Slot) : Prop :=
  Instr.execAll E invoke rounds code stack = (· :: stack) <$> x

variable {code : Code} {stack : List Slot} {x : Run (State σ) Slot}

theorem Pushes.apply (h : Pushes E invoke rounds code stack x) (s : State σ) :
    Instr.execAll E invoke rounds code stack s =
      match x s with
      | some (.ok v, t) => some (.ok (v :: stack), t)
      | some (.error e, t) => some (.error e, t)
      | none => none := by
  rw [h, Run.map_apply]
  rcases x s with - | ⟨e | v, t⟩ <;> rfl

/-! ## Single instructions -/

section

variable (v w : Slot)

@[simp] theorem exec_pop (s : State σ) :
    Instr.exec E invoke rounds (op .pop) (v :: stack) s = some (.ok stack, s) := rfl

@[simp] theorem exec_nip (s : State σ) :
    Instr.exec E invoke rounds (op .nip) (v :: w :: stack) s = some (.ok (v :: stack), s) := rfl

@[simp] theorem exec_pushCurrPos (s : State σ) :
    Instr.exec E invoke rounds (op .pushCurrPos) stack s = some (.ok (.pos s.pos :: stack), s) := rfl

@[simp] theorem exec_silentFailsOn (s : State σ) :
    Instr.exec E invoke rounds (op .silentFailsOn) stack s = some (.ok stack, s.silentOn) := rfl

@[simp] theorem exec_silentFailsOff (s : State σ) :
    Instr.exec E invoke rounds (op .silentFailsOff) stack s = some (.ok stack, s.silentOff) := rfl

@[simp] theorem exec_updateSavedPos (s : State σ) :
    Instr.exec E invoke rounds (op .updateSavedPos) stack s =
      some (.ok stack, { s with savedPos := s.pos }) := rfl

theorem exec_loadSavedPos (s : State σ) (p : Nat) (n : UInt32)
    (h : stack.getD n.toNat .failed = .pos p) :
    Instr.exec E invoke rounds (op1 .loadSavedPos n) stack s =
      some (.ok stack, { s with savedPos := p }) := by
  simp only [Instr.exec, op1, Interpreter.plain, State.loadSavedPos, Instr.arg_one, h, Slot.pos?,
    reduceCtorEq, if_false]

@[simp] theorem exec_text (p : Nat) (s : State σ) :
    Instr.exec E invoke rounds (op .text) (.pos p :: stack) s =
      some (.ok (.text (E.input.slice p s.pos) :: stack), s) := rfl

@[simp] theorem exec_pushUndefined (s : State σ) :
    Instr.exec E invoke rounds (op .pushUndefined) stack s =
      some (.ok (.value .undefined :: stack), s) := rfl

@[simp] theorem exec_pushNull (s : State σ) :
    Instr.exec E invoke rounds (op .pushNull) stack s = some (.ok (.value .null :: stack), s) := rfl

@[simp] theorem exec_pushEmptyArray (s : State σ) :
    Instr.exec E invoke rounds (op .pushEmptyArray) stack s =
      some (.ok (.value (.array []) :: stack), s) := rfl

@[simp] theorem exec_append (items : List Value) (s : State σ) :
    Instr.exec E invoke rounds (op .append) (v :: .value (.array items) :: stack) s =
      some (.ok (.value (.array (items ++ [v.toValue])) :: stack), s) := rfl

@[simp] theorem exec_popCurrPos (p : Nat) (s : State σ) :
    Instr.exec E invoke rounds (op .popCurrPos) (.pos p :: stack) s =
      some (.ok stack, { s with pos := p }) := rfl

@[simp] theorem exec_pushFailed (s : State σ) :
    Instr.exec E invoke rounds (op .pushFailed) stack s =
      some (.ok (.failed :: stack), s.pushFailed.2) := rfl

theorem exec_fail {c : UInt32} {e : Expectation} (hc : E.program.expectation? c.toNat = some e)
    (s : State σ) :
    Instr.exec E invoke rounds (op1 .fail c) stack s =
      some (.ok (.failed :: stack), s.failFor e) := by
  simp [Instr.exec, op1, Interpreter.plain, Interpreter.pushing, State.fail, hc]

end

/-- A condition on the top being no failure. -/
@[simp] theorem exec_ifNotError (held otherwise : Code) (v : Slot) (s : State σ) :
    Instr.exec E invoke rounds (.branch .ifNotError [] held otherwise) (v :: stack) s =
      if v.isFailed then Instr.execAll E invoke rounds otherwise (v :: stack) s
      else Instr.execAll E invoke rounds held (v :: stack) s := by
  cases v <;> rfl

/-- A condition on the top being a failure. -/
@[simp] theorem exec_ifError (held otherwise : Code) (v : Slot) (s : State σ) :
    Instr.exec E invoke rounds (.branch .ifError [] held otherwise) (v :: stack) s =
      if v.isFailed then Instr.execAll E invoke rounds held (v :: stack) s
      else Instr.execAll E invoke rounds otherwise (v :: stack) s := by
  cases v <;> rfl

/-- A condition on the top being true for a condition of the host language. -/
@[simp] theorem exec_ifTruthy (held otherwise : Code) (v : Slot) (s : State σ) :
    Instr.exec E invoke rounds (.branch .ifTruthy [] held otherwise) (v :: stack) s =
      if v.isTruthy then Instr.execAll E invoke rounds held (v :: stack) s
      else Instr.execAll E invoke rounds otherwise (v :: stack) s := rfl

/-! ## Terminals -/

/-- A terminal whose condition is that of the expression and that takes the same text. -/
theorem pushes_terminal {opcode acceptOp : Opcode} {operands : List UInt32} {w e : UInt32}
    {shape : Shape} {test : Nat → Bool} {text : Nat → List Char}
    (htaken : ∀ pos, Peg.taken? E.input pos shape = if test pos then some (text pos) else none)
    (hholds : ∀ s : State σ, Interpreter.holds E opcode (Instr.arg operands) stack s = test s.pos)
    (hop : acceptOp ≠ .rule)
    (haccept : ∀ s : State σ, Interpreter.plain E acceptOp (Instr.arg [w]) stack s =
      (.ok (.text (String.ofList (text s.pos)) :: stack),
        { s with pos := s.pos + Text.byteSize (text s.pos) }))
    (he : E.program.expectation? e.toNat = some (Peg.wanted shape)) :
    Pushes E invoke rounds [.branch opcode operands [op1 acceptOp w] [op1 .fail e]] stack
      (Peg.terminal (Peg.machine E) E.input shape) := by
  funext s
  simp only [Instr.execAll_cons, Instr.execAll_nil, Run.bind_apply, Run.map_apply, Instr.exec,
    hholds, Peg.terminal, Peg.machine_pos, htaken]
  cases test s.pos with
  | false => simp [exec_fail he]
  | true => simp [Instr.exec, op1, hop, haccept]

/-! ## Composite expressions -/

theorem pushes_named {c : UInt32} {name : String} (hx : Pushes E invoke rounds code stack x)
    (hc : E.program.expectation? c.toNat = some (.other name)) :
    Pushes E invoke rounds ([op .silentFailsOn] ++ code ++
      [op .silentFailsOff, .branch .ifError [] [op .pop, op1 .fail c] []]) stack
      (Peg.named (Peg.machine E) name x) := by
  funext s
  simp only [Instr.execAll_append, Instr.execAll_cons, Instr.execAll_nil, Run.bind_apply,
    Run.map_apply, Run.pure_apply, exec_silentFailsOn, hx.apply, Peg.named, Peg.quietly,
    Peg.machine_hush]
  rcases x s.silentOn with - | ⟨e | v, t⟩
  · rfl
  · rfl
  · cases v <;> simp [Slot.isFailed, Run.bind_apply, exec_fail hc]

theorem pushes_orElse {others : Code} {y : Run (State σ) Slot}
    (hx : Pushes E invoke rounds code stack x) (hy : Pushes E invoke rounds others stack y) :
    Pushes E invoke rounds (code ++ [.branch .ifError [] (op .pop :: others) []]) stack
      (x >>= fun v => if v.isFailed then y else pure v) := by
  funext s
  simp only [Instr.execAll_append, Instr.execAll_cons, Instr.execAll_nil, Run.bind_apply,
    Run.map_apply, hx.apply]
  rcases x s with - | ⟨e | v, t⟩
  · rfl
  · rfl
  · cases v with
    | failed =>
      simp only [exec_ifError, Slot.isFailed, reduceIte, Instr.execAll_cons, Run.bind_apply,
        exec_pop, hy.apply]
      rcases y t with - | ⟨e | v, u⟩ <;> rfl
    | pos p => simp [Slot.isFailed]
    | value v => simp [Slot.isFailed]

theorem pushes_text (hx : ∀ p, Pushes E invoke rounds code (.pos p :: stack) x) :
    Pushes E invoke rounds ([op .pushCurrPos] ++ code ++
      [.branch .ifNotError [] [op .pop, op .text] [op .nip]]) stack
      (Peg.text (Peg.machine E) E.input x) := by
  funext s
  simp only [Instr.execAll_append, Instr.execAll_cons, Instr.execAll_nil, Run.bind_apply,
    Run.map_apply, Run.pure_apply, exec_pushCurrPos, (hx s.pos).apply, Peg.text, Peg.here_apply,
    Peg.machine_pos]
  rcases x s with - | ⟨e | v, t⟩
  · rfl
  · rfl
  · cases v <;> simp [Slot.isFailed, Run.bind_apply]

theorem pushes_optional (hx : Pushes E invoke rounds code stack x) :
    Pushes E invoke rounds (code ++ [.branch .ifError [] [op .pop, op .pushNull] []]) stack
      (Peg.optional x) := by
  funext s
  simp only [Instr.execAll_append, Instr.execAll_cons, Instr.execAll_nil, Run.bind_apply,
    Run.map_apply, hx.apply, Peg.optional]
  rcases x s with - | ⟨e | v, t⟩
  · rfl
  · rfl
  · cases v <;> simp [Slot.isFailed, Run.bind_apply]

theorem pushes_simpleAnd (hx : ∀ p, Pushes E invoke rounds code (.pos p :: stack) x) :
    Pushes E invoke rounds ([op .pushCurrPos, op .silentFailsOn] ++ code ++
      [op .silentFailsOff, .branch .ifNotError [] [op .pop, op .popCurrPos, op .pushUndefined]
        [op .pop, op .pop, op .pushFailed]]) stack
      (Peg.predicate (Peg.machine E) false x) := by
  funext s
  simp only [Instr.execAll_append, Instr.execAll_cons, Instr.execAll_nil, Run.bind_apply,
    Run.map_apply, Run.pure_apply, exec_pushCurrPos, exec_silentFailsOn, (hx s.pos).apply,
    Peg.predicate, Peg.quietly, Peg.here_apply, Peg.machine_pos, Peg.machine_hush]
  rcases x s.silentOn with - | ⟨e | v, t⟩
  · rfl
  · rfl
  · cases v <;> simp [Slot.isFailed, Run.bind_apply]

theorem pushes_simpleNot (hx : ∀ p, Pushes E invoke rounds code (.pos p :: stack) x) :
    Pushes E invoke rounds ([op .pushCurrPos, op .silentFailsOn] ++ code ++
      [op .silentFailsOff, .branch .ifError [] [op .pop, op .pop, op .pushUndefined]
        [op .pop, op .popCurrPos, op .pushFailed]]) stack
      (Peg.predicate (Peg.machine E) true x) := by
  funext s
  simp only [Instr.execAll_append, Instr.execAll_cons, Instr.execAll_nil, Run.bind_apply,
    Run.map_apply, Run.pure_apply, exec_pushCurrPos, exec_silentFailsOn, (hx s.pos).apply,
    Peg.predicate, Peg.quietly, Peg.here_apply, Peg.machine_pos, Peg.machine_hush]
  rcases x s.silentOn with - | ⟨e | v, t⟩
  · rfl
  · rfl
  · cases v <;> simp [Slot.isFailed, Run.bind_apply]

/-! ## Repetition -/

/-- A loop appends what its block pushes, item after item. -/
theorem exec_loop {again : List Value → Run (State σ) Slot}
    (hx : ∀ items, Pushes E invoke rounds code (.value (.array items) :: stack) (again items))
    (v : Slot) (items : List Value) :
    Instr.exec E invoke rounds (.loop (op .append :: code)) (v :: .value (.array items) :: stack) =
      (fun a : List Value × Slot => a.2 :: .value (.array a.1) :: stack) <$>
        Run.repeatWhile Peg.mayFollow (Peg.another again) rounds (items, v) := by
  rw [Instr.exec]
  refine Run.repeatWhile_map (fun a : List Value × Slot => a.2 :: .value (.array a.1) :: stack)
    (fun a s => rfl) (fun a s _ => ?_) rounds (items, v)
  simp only [Instr.execAll_cons, Run.bind_apply, exec_append, (hx _).apply, Run.map_apply,
    Peg.another]
  rcases again (a.1 ++ [a.2.toValue]) s with - | ⟨e | w, t⟩ <;> rfl

/-- The loop after the first item leaves a list of all items. -/
theorem exec_items {again : List Value → Run (State σ) Slot}
    (hx : ∀ items, Pushes E invoke rounds code (.value (.array items) :: stack) (again items))
    (v : Slot) :
    Instr.execAll E invoke rounds [.loop (op .append :: code), op .pop]
        (v :: .value (.array []) :: stack) =
      (fun items => .value (.array items) :: stack) <$> Peg.items rounds again v := by
  funext s
  simp only [Instr.execAll_cons, Instr.execAll_nil, Run.bind_apply, exec_loop hx, Run.map_apply,
    Peg.items]
  rcases Run.repeatWhile Peg.mayFollow (Peg.another again) rounds ([], v) s with
    - | ⟨e | a, t⟩ <;> rfl

theorem execAll_pushEmptyArray :
    Instr.execAll E invoke rounds [op .pushEmptyArray] stack =
      pure (.value (.array []) :: stack) := rfl

theorem pushes_zeroOrMore (hx : ∀ v, Pushes E invoke rounds code (v :: stack) x) :
    Pushes E invoke rounds ([op .pushEmptyArray] ++ code ++ [.loop (op .append :: code), op .pop])
      stack (Peg.zeroOrMore rounds x) := by
  rw [Pushes, Instr.execAll_append, Instr.execAll_append, execAll_pushEmptyArray, pure_bind, hx _,
    bind_map_left]
  simp only [exec_items fun _ => hx _, Peg.zeroOrMore, map_bind, bind_pure_comp, Functor.map_map]

theorem pushes_oneOrMore (hx : ∀ v, Pushes E invoke rounds code (v :: stack) x) :
    Pushes E invoke rounds ([op .pushEmptyArray] ++ code ++
      [.branch .ifNotError [] [.loop (op .append :: code), op .pop]
        [op .pop, op .pop, op .pushFailed]]) stack
      (Peg.oneOrMore (Peg.machine E) rounds x) := by
  rw [Pushes, Instr.execAll_append, Instr.execAll_append, execAll_pushEmptyArray, pure_bind, hx _,
    bind_map_left, Peg.oneOrMore, map_bind]
  congr 1
  funext v s
  rw [Instr.execAll_cons, Run.bind_apply, exec_ifNotError, exec_items fun _ => hx _]
  cases v with
  | failed => simp [Slot.isFailed, Run.bind_apply, Run.map_apply]
  | _ =>
    simp only [Slot.isFailed, reduceIte, Bool.false_eq_true, Run.map_apply, Run.bind_apply]
    rcases Peg.items rounds (fun _ => x) _ s with - | ⟨e | items, t⟩ <;> rfl

/-- What is done when a saved offset has to be restored below a failure or a value. -/
theorem execAll_restoreAndFail (v : Slot) (p : Nat) :
    Instr.execAll E invoke rounds Generate.restoreAndFail (v :: .pos p :: stack) =
      (· :: stack) <$> Peg.retreat (Peg.machine E) p := rfl

theorem pushes_delimited {between : Code} {d : Run (State σ) Slot}
    (hd : ∀ p, Pushes E invoke rounds between (.pos p :: stack) d)
    (hx : ∀ p, Pushes E invoke rounds code (.pos p :: stack) x) :
    Pushes E invoke rounds ([op .pushCurrPos] ++ between ++
      [.branch .ifNotError [] ([op .pop] ++ code ++
        [.branch .ifError [] Generate.restoreAndFail [op .nip]]) [op .nip]]) stack
      (Peg.delimited (Peg.machine E) d x) := by
  funext s
  simp only [List.singleton_append, Instr.execAll_append, Instr.execAll_cons,
    Instr.execAll_nil, Run.bind_apply, Run.map_apply, Run.pure_apply, exec_pushCurrPos,
    (hd s.pos).apply, Peg.delimited, Peg.here_apply, Peg.machine_pos]
  rcases d s with - | ⟨e | v, t⟩
  · rfl
  · rfl
  · cases v with
    | failed => simp [Slot.isFailed, Run.bind_apply]
    | _ =>
      simp only [exec_ifNotError, Slot.isFailed, reduceIte, Bool.false_eq_true,
        Instr.execAll_cons, Instr.execAll_append, Run.bind_apply, exec_pop, (hx s.pos).apply]
      rcases x t with - | ⟨e | w, u⟩
      · rfl
      · rfl
      · cases w <;>
          simp [Slot.isFailed, execAll_restoreAndFail, Run.map_apply, Run.bind_apply]

theorem pushes_bounded (max : UInt32) {items : List Value}
    (hx : Pushes E invoke rounds code (.value (.array items) :: stack) x) :
    Pushes E invoke rounds [.branch .ifArrlenMax [max] [op .pushFailed] code]
      (.value (.array items) :: stack) (Peg.bounded (Peg.machine E) (some max) x items) := by
  funext s
  have hholds : Interpreter.holds E .ifArrlenMax (Instr.arg [max])
      (.value (.array items) :: stack) s = decide (max.toNat ≤ items.length) := rfl
  simp only [Instr.execAll_cons, Instr.execAll_nil, Run.bind_apply, Run.map_apply, Run.pure_apply,
    Instr.exec, hholds, decide_eq_true_eq, Peg.bounded]
  by_cases hmax : max.toNat ≤ items.length
  · simp [hmax]
  · simp only [hmax, if_false, hx.apply]
    rcases x s with - | ⟨e | v, t⟩ <;> rfl

/-- A range without a lower bound. -/
theorem execAll_range {first further : Code} {again : List Value → Run (State σ) Slot}
    (hx : ∀ v, Pushes E invoke rounds first (v :: stack) x)
    (hfurther : ∀ items,
      Pushes E invoke rounds further (.value (.array items) :: stack) (again items)) :
    Instr.execAll E invoke rounds ([op .pushEmptyArray] ++ first ++
        [.loop (op .append :: further), op .pop]) stack =
      (fun items => .value (.array items) :: stack) <$> (x >>= Peg.items rounds again) := by
  rw [Instr.execAll_append, Instr.execAll_append, execAll_pushEmptyArray, pure_bind, hx _,
    bind_map_left]
  simp only [exec_items hfurther, map_bind]

theorem pushes_range_zero {first further : Code} {max : Option UInt32} {y : Run (State σ) Slot}
    (hx : ∀ v, Pushes E invoke rounds first (v :: stack) x)
    (hfurther : ∀ items, Pushes E invoke rounds further (.value (.array items) :: stack)
      (Peg.bounded (Peg.machine E) max y items)) :
    Pushes E invoke rounds ([op .pushEmptyArray] ++ first ++
        [.loop (op .append :: further), op .pop]) stack
      (Peg.range (Peg.machine E) rounds 0 max x y) := by
  funext s
  rw [execAll_range hx hfurther]
  simp only [Run.map_apply, Run.bind_apply, Peg.range, Peg.here_apply, UInt32.toNat_zero,
    Nat.not_lt_zero, if_false]
  rcases x s with - | ⟨e | v, t⟩
  · rfl
  · rfl
  · dsimp only
    rcases Peg.items rounds (Peg.bounded (Peg.machine E) max y) v t with - | ⟨e | items, u⟩ <;> rfl

theorem pushes_range_min {first further : Code} {min : UInt32} {max : Option UInt32}
    {y : Run (State σ) Slot}
    (hx : ∀ p v, Pushes E invoke rounds first (v :: .pos p :: stack) x)
    (hfurther : ∀ p items,
      Pushes E invoke rounds further (.value (.array items) :: .pos p :: stack)
        (Peg.bounded (Peg.machine E) max y items)) :
    Pushes E invoke rounds ([op .pushCurrPos] ++ ([op .pushEmptyArray] ++ first ++
        [.loop (op .append :: further), op .pop]) ++
        [.branch .ifArrlenMin [min] Generate.restoreAndFail [op .nip]]) stack
      (Peg.range (Peg.machine E) rounds min max x y) := by
  funext s
  simp only [Instr.execAll_append [op .pushCurrPos], Instr.execAll_append _ [Instr.branch _ _ _ _],
    execAll_range (hx _) (hfurther _), Instr.execAll_cons, Instr.execAll_nil, Run.map_apply,
    Run.bind_apply, Run.pure_apply, exec_pushCurrPos, Peg.range, Peg.here_apply, Peg.machine_pos]
  rcases x s with - | ⟨e | v, t⟩
  · rfl
  · rfl
  · dsimp only
    rcases Peg.items rounds (Peg.bounded (Peg.machine E) max y) v t with - | ⟨e | items, u⟩
    · rfl
    · rfl
    · have hholds : Interpreter.holds E .ifArrlenMin (Instr.arg [min])
          (.value (.array items) :: .pos s.pos :: stack) u =
            decide (items.length < min.toNat) := rfl
      simp only [Instr.exec, hholds, decide_eq_true_eq]
      by_cases hmin : items.length < min.toNat
      · simp [hmin, execAll_restoreAndFail, Run.map_apply]
      · simp [hmin, Run.bind_apply]

/-! ## Labels and actions -/

/-- The slots of labels, counted from the bottom of a stack, hold their values. -/
def Binds (stack : List Slot) (scope : Scope) (env : Env) : Prop :=
  List.Forall₂ (fun l v => l.1 = v.1 ∧ stack.reverse[l.2]?.map Slot.toValue = some v.2) scope env

namespace Binds

variable {scope : Scope} {env : Env}

theorem nil : Binds stack [] [] := List.Forall₂.nil

/-- What is pushed does not matter. -/
theorem push (h : Binds stack scope env) (v : Slot) : Binds (v :: stack) scope env := by
  refine List.Forall₂.imp (fun l w hl => ⟨hl.1, ?_⟩) h
  obtain ⟨u, hu, hw⟩ := Option.map_eq_some_iff.mp hl.2
  have hlt : l.2 < stack.reverse.length := (List.getElem?_eq_some_iff.mp hu).choose
  rw [List.reverse_cons, List.getElem?_append_left hlt, hu, Option.map_some, hw]

/-- A label is bound to what is pushed. -/
theorem bind (h : Binds stack scope env) (label : String) (v : Slot) :
    Binds (v :: stack) (scope.bind label stack.length) (env.bind label v.toValue) := by
  have hv : ((v :: stack).reverse[stack.length]?).map Slot.toValue = some v.toValue := by
    simp
  have hpush := h.push v
  clear h
  induction hpush with
  | nil => exact .cons ⟨rfl, hv⟩ .nil
  | @cons l w scope env hl hrest ih =>
    obtain ⟨other, slot⟩ := l
    obtain ⟨other', value⟩ := w
    obtain ⟨rfl, hvalue⟩ : other = other' ∧ _ := hl
    rw [Scope.bind, Env.bind]
    split
    · exact .cons ⟨rfl, hv⟩ hrest
    · exact .cons ⟨rfl, hvalue⟩ ih

theorem labels_eq (h : Binds stack scope env) : scope.labels = env.map (·.1) := by
  induction h with
  | nil => rfl
  | cons hl _ ih => simp only [Scope.labels, List.map_cons, hl.1] at ih ⊢; rw [ih]

/-- The distances of labels lead to their values. -/
theorem map_distances (h : Binds stack scope env) (hsize : stack.length ≤ 2 ^ 32)
    {distances : List UInt32} (hd : scope.distances stack.length = .ok distances) :
    distances.map (fun d => (stack.getD d.toNat .failed).toValue) = env.map (·.2) := by
  induction h generalizing distances with
  | nil => cases hd; rfl
  | @cons l w scope env hl _ ih =>
    obtain ⟨label, slot⟩ := l
    rw [Scope.distances] at hd
    split at hd
    · next hlt =>
      obtain ⟨others, hothers, hd⟩ := bind_eq_ok.mp hd
      cases hd
      obtain ⟨v, hv, hw⟩ := Option.map_eq_some_iff.mp hl.2
      rw [List.getElem?_reverse hlt] at hv
      have hslot : (UInt32.ofNat (stack.length - 1 - slot)).toNat = stack.length - 1 - slot :=
        UInt32.toNat_ofNat_of_lt' (by rw [UInt32.size]; omega)
      rw [List.map_cons, List.map_cons, ih hothers, hslot, List.getD_eq_getElem?_getD, hv,
        Option.getD_some, hw]
    · cases hd

end Binds

theorem Scope.length_distances {scope : Scope} {height : Nat} {distances : List UInt32}
    (h : scope.distances height = .ok distances) : distances.length = scope.length := by
  induction scope generalizing distances with
  | nil => cases h; rfl
  | cons l scope ih =>
    rw [Scope.distances] at h
    split at h
    · obtain ⟨others, hothers, h⟩ := bind_eq_ok.mp h
      cases h
      rw [List.length_cons, ih hothers, List.length_cons]
    · cases h

/-- An instruction runs an action with the values of labels and puts its result in place of some
entries. -/
def Calls (E : Setting σ) (invoke : Nat → Run (State σ) Slot) (rounds : Nat) (run : Instr)
    (replaced : Nat) (stack : List Slot) (source : String) (env : Env) : Prop :=
  ∀ s, Instr.exec E invoke rounds run stack s =
    ((· :: stack.drop replaced) <$> Peg.act (Peg.machine E) source s.savedPos env) s

theorem calls_call {f replaced : UInt32} {scope : Scope} {env : Env} {source : String}
    {distances : List UInt32} (hb : Binds stack scope env)
    (hd : scope.distances stack.length = .ok distances) (hsize : stack.length ≤ 2 ^ 32)
    (hcount : scope.length < 2 ^ 32)
    (hf : E.program.actions[f.toNat]? = some ⟨scope.labels, source⟩)
    (hindex : f.toNat = Peg.actionIndex E.program ⟨scope.labels, source⟩) :
    Calls E invoke rounds
      (.plain .call ([f, replaced, UInt32.ofNat scope.length] ++ distances)) replaced.toNat stack
      source env := by
  intro s
  have hcount' : Instr.arg ([f, replaced, UInt32.ofNat scope.length] ++ distances) 3 =
      distances.length := by
    rw [Scope.length_distances hd]
    exact UInt32.toNat_ofNat_of_lt' hcount
  have harg (i : Nat) : Instr.arg ([f, replaced, UInt32.ofNat scope.length] ++ distances) (4 + i) =
      (distances.getD i 0).toNat := by
    rw [Instr.arg, show 4 + i - 1 = i + 3 by omega]
    rfl
  have hargs : (List.range distances.length).map (fun i =>
      (stack.getD (distances.getD i 0).toNat .failed).toValue) = env.map (·.2) := by
    rw [← hb.map_distances hsize hd]
    refine List.ext_getElem (by simp) fun i _ hi => ?_
    rw [List.length_map] at hi
    simp [hi]
  have hact : Peg.act (Peg.machine E) source s.savedPos env s =
      some (s.call E f.toNat (env.map (·.2))) := by
    rw [Peg.act_apply, Peg.machine_call, ← hb.labels_eq, ← hindex, State.call, hf]
  have haction : Instr.arg ([f, replaced, UInt32.ofNat scope.length] ++ distances) 1 = f.toNat :=
    rfl
  have hreplaced : Instr.arg ([f, replaced, UInt32.ofNat scope.length] ++ distances) 2 =
      replaced.toNat := rfl
  simp only [Instr.exec, reduceCtorEq, if_false, Interpreter.plain, hcount', harg, hargs, haction,
    hreplaced]
  rw [Run.map_apply, hact]
  generalize State.call E s f.toNat _ = r
  rcases r with ⟨e | v, t⟩ <;> rfl

/-- Running an action leaves the stack as it finds it but for what the call replaces. -/
theorem Calls.apply {run : Instr} {n : Nat} {source : String} {env : Env}
    (h : Calls E invoke rounds run n stack source env) (s : State σ) :
    Instr.exec E invoke rounds run stack s =
      match Peg.act (Peg.machine E) source s.savedPos env s with
      | some (.ok v, t) => some (.ok (v :: stack.drop n), t)
      | some (.error e, t) => some (.error e, t)
      | none => none := by
  rw [h, Run.map_apply]
  rcases Peg.act (Peg.machine E) source s.savedPos env s with - | ⟨e | v, t⟩ <;> rfl

theorem pushes_semantic {run : Instr} {source : String} {env : Env} (negative : Bool)
    (hrun : Calls E invoke rounds run 0 stack source env) :
    Pushes E invoke rounds [op .updateSavedPos, op .silentFailsOn, run, op .silentFailsOff,
      .branch .ifTruthy [] [op .pop, op (if negative then .pushFailed else .pushUndefined)]
        [op .pop, op (if negative then .pushUndefined else .pushFailed)]] stack
      (Peg.semantic (Peg.machine E) source negative env) := by
  funext s
  have hact : Peg.act (Peg.machine E) source s.pos env { s with savedPos := s.pos }.silentOn =
      Peg.act (Peg.machine E) source s.pos env s.silentOn := rfl
  have hrun' := hrun.apply { s with savedPos := s.pos }.silentOn
  simp only [Instr.execAll_cons, Instr.execAll_nil, Run.bind_apply, Run.map_apply, Run.pure_apply,
    exec_updateSavedPos, exec_silentFailsOn, hrun', Peg.semantic, Peg.quietly, Peg.here_apply,
    Peg.machine_pos, Peg.machine_hush, List.drop_zero]
  simp only [State.silentOn] at hact ⊢
  rw [hact]
  generalize Peg.act (Peg.machine E) source s.pos env _ = r
  rcases r with - | ⟨e | v, t⟩
  · rfl
  · rfl
  · cases negative <;> cases hv : v.isTruthy <;> simp [hv, Run.bind_apply]

theorem pushes_code {run : Instr} {c : UInt32} {source : String} {env : Env}
    (hrun : Calls E invoke rounds run 0 stack source env)
    (hc : E.program.expectation? c.toNat = some (.code source)) :
    Pushes E invoke rounds [op .updateSavedPos, run,
      .branch .ifError [] [op .pop, op1 .fail c] []] stack
      (Peg.code (Peg.machine E) source env) := by
  funext s
  simp only [Instr.execAll_cons, Instr.execAll_nil, Run.bind_apply, Run.map_apply, Run.pure_apply,
    exec_updateSavedPos, hrun.apply, Peg.code, Peg.here_apply, Peg.machine_pos, List.drop_zero]
  rw [show Peg.act (Peg.machine E) source s.pos env { s with savedPos := s.pos } =
    Peg.act (Peg.machine E) source s.pos env s from rfl]
  rcases Peg.act (Peg.machine E) source s.pos env s with - | ⟨e | v, t⟩
  · rfl
  · rfl
  · cases v <;> simp [Slot.isFailed, Run.bind_apply, exec_fail hc]

theorem pushes_actionAround {g : Grammar} {id : NodeId} {run : Instr} {source : String} {env : Env}
    (hx : ∀ p, Pushes E invoke rounds code (.pos p :: stack) x)
    (hrun : ∀ p v, Calls E invoke rounds run 1 (v :: .pos p :: stack) source (env.after g id v)) :
    Pushes E invoke rounds ([op .pushCurrPos] ++ code ++
      [.branch .ifNotError [] [op1 .loadSavedPos 1, run] [], op .nip]) stack
      (Peg.actionAround (Peg.machine E) g id x source env) := by
  funext s
  simp only [Instr.execAll_append, Instr.execAll_cons, Instr.execAll_nil, Run.bind_apply,
    Run.map_apply, Run.pure_apply, exec_pushCurrPos, (hx s.pos).apply, Peg.actionAround,
    Peg.here_apply, Peg.machine_pos]
  rcases x s with - | ⟨e | v, t⟩
  · rfl
  · rfl
  · have hact : Peg.act (Peg.machine E) source s.pos (env.after g id v)
        { t with savedPos := s.pos } =
        Peg.act (Peg.machine E) source s.pos (env.after g id v) t := rfl
    have hload : Instr.exec E invoke rounds (op1 .loadSavedPos 1) (v :: .pos s.pos :: stack) t =
        some (.ok (v :: .pos s.pos :: stack), { t with savedPos := s.pos }) :=
      exec_loadSavedPos t s.pos 1 rfl
    cases hv : v.isFailed with
    | true => simp [hv]
    | false =>
      simp only [exec_ifNotError, hv, Bool.false_eq_true, if_false, Instr.execAll_cons,
        Instr.execAll_nil, Run.bind_apply, hload, (hrun s.pos v).apply, hact]
      rcases Peg.act (Peg.machine E) source s.pos (env.after g id v) t with - | ⟨e | w, u⟩ <;> rfl

/-! ## Sequences -/

/-- The values of a sequence make a list. -/
theorem execAll_wrap {n : UInt32} {values : List Slot} (hn : n.toNat = values.length) (v : Slot) :
    Instr.execAll E invoke rounds [op1 .wrap n, op .nip] (values ++ v :: stack) =
      pure (.wrap values.reverse :: stack) := by
  funext s
  have hwrap : Instr.exec E invoke rounds (op1 .wrap n) (values ++ v :: stack) s =
      some (.ok (.wrap values.reverse :: v :: stack), s) := by
    simp [Instr.exec, op1, Interpreter.plain, hn]
  simp [Run.bind_apply, hwrap]

/-- The values of a sequence are replaced by what an action makes of them. -/
theorem execAll_callOnElements {n : UInt32} {values : List Slot} {run : Instr} {source : String}
    {env : Env} {start : Nat} (hn : n.toNat = values.length)
    (hrun : Calls E invoke rounds run values.length (values ++ .pos start :: stack) source env) :
    Instr.execAll E invoke rounds [op1 .loadSavedPos n, run, op .nip]
        (values ++ .pos start :: stack) =
      (· :: stack) <$> Peg.act (Peg.machine E) source start env := by
  funext s
  have hact : Peg.act (Peg.machine E) source start env { s with savedPos := start } =
      Peg.act (Peg.machine E) source start env s := rfl
  have hload : Instr.exec E invoke rounds (op1 .loadSavedPos n) (values ++ .pos start :: stack) s =
      some (.ok (values ++ .pos start :: stack), { s with savedPos := start }) :=
    exec_loadSavedPos s start n (by simp [hn])
  simp only [Instr.execAll_cons, Instr.execAll_nil, Run.bind_apply, hload, hrun.apply, hact,
    Run.map_apply, List.drop_left]
  rcases Peg.act (Peg.machine E) source start env s with - | ⟨e | w, u⟩ <;> rfl

theorem execAll_cleanup {values : List Slot} {start : Nat} (v : Slot)
    (hsize : values.length < 2 ^ 32 - 1) :
    Instr.execAll E invoke rounds (Generate.cleanup (values.length + 1))
        (v :: (values ++ .pos start :: stack)) =
      (· :: stack) <$> Peg.retreat (Peg.machine E) start := by
  funext s
  have hdrop : Instr.exec E invoke rounds
      (if 1 < values.length + 1 then op1 .popN (UInt32.ofNat (values.length + 1)) else op .pop)
      (v :: (values ++ .pos start :: stack)) s = some (.ok (.pos start :: stack), s) := by
    split
    · have hn : (UInt32.ofNat (values.length + 1)).toNat = values.length + 1 :=
        UInt32.toNat_ofNat_of_lt' (by rw [UInt32.size]; omega)
      simp only [Instr.exec, op1, Interpreter.plain, Instr.arg_one, hn, reduceCtorEq, if_false,
        List.drop_succ_cons, List.drop_left]
    · have hnil : values = [] := List.length_eq_zero_iff.mp (by omega)
      simp [hnil]
  simp only [Generate.cleanup, Instr.execAll_cons, Instr.execAll_nil, Run.bind_apply, hdrop,
    Run.map_apply]
  rfl

/-- An element of a sequence, around the code of the elements after it. -/
theorem execAll_element {inner : Code} {values : List Slot} {start : Nat}
    {next : Slot → Run (State σ) Slot} (hsize : values.length < 2 ^ 32 - 1)
    (hx : Pushes E invoke rounds code (values ++ .pos start :: stack) x)
    (hinner : ∀ v, Instr.execAll E invoke rounds inner (v :: (values ++ .pos start :: stack)) =
      (· :: stack) <$> next v) :
    Instr.execAll E invoke rounds
        (code ++ [.branch .ifNotError [] inner (Generate.cleanup (values.length + 1))])
        (values ++ .pos start :: stack) =
      (· :: stack) <$>
        (x >>= fun v => if v.isFailed then Peg.retreat (Peg.machine E) start else next v) := by
  funext s
  simp only [Instr.execAll_append, Instr.execAll_cons, Instr.execAll_nil, Run.bind_apply, hx.apply,
    Run.map_apply]
  rcases x s with - | ⟨e | v, t⟩
  · rfl
  · rfl
  · simp only [exec_ifNotError, execAll_cleanup v hsize, hinner]
    cases hv : v.isFailed with
    | true => simp [Run.map_apply]
    | false =>
      simp only [Bool.false_eq_true, if_false, Run.map_apply]
      rcases next v t with - | ⟨e | w, u⟩ <;> rfl

end PegMachine
