import PegMachine.Proofs.Correctness

/-!
# Actions run once

Who runs an action is split between two places: a sequence runs the action that is handed down to it
at its own end, and for other expressions the action node does so itself. The evaluator here knows
one place only. An expression gives its value and the labels that an action on it sees, without
being told of the action; the action node then calls the action, once, if there was a match.

Generated code does the same, unless an action stands over a sequence without elements. Then both
places run the action.
-/

namespace PegMachine

namespace Peg

variable {S : Type}

section

variable (O : Ops S)

/-- The elements of a sequence, with the labels that are in scope in the end. -/
def members (eval : NodeId → Env → Run S Slot) (g : Grammar) (start : Nat) :
    List NodeId → List Slot → Env → Run S (Slot × Env)
  | [], values, env => return (.wrap values.reverse, env)
  | e :: rest, values, env => do
    let v ← eval e env
    if v.isFailed then
      let v ← retreat O start
      return (v, env)
    else members eval g start rest (v :: values) (env.after g e v)

/-- Run an action once after an expression that is matched, with the labels that it leaves. -/
def once (x : Run S (Slot × Env)) (source : String) : Run S Slot := do
  let start ← here O
  let (v, labels) ← x
  if v.isFailed then return v else act O source start labels

/-- Evaluate a node, given a bound on the depth below it. With the value go the labels that an action
on the node sees. -/
def evalOnce (input : Input) (g : Grammar) (invoke : Nat → Run S Slot) (rounds : Nat) :
    Nat → NodeId → Env → Run S (Slot × Env)
  | 0, _, _ => .forever
  | depth + 1, id, env =>
    let value (e : NodeId) (env : Env) : Run S Slot :=
      (·.1) <$> evalOnce input g invoke rounds depth e env
    match g.shape id with
    | .action e source => do
      let v ← once O (evalOnce input g invoke rounds depth e env) source
      return (v, env)
    | .sequence es => do
      let start ← here O
      members O value g start es [] env
    | _ => do
      let v ← level O input g invoke rounds (fun e env _ => value e env) id env none
      return (v, env.after g id v)

/-- Evaluate the expression of a rule. -/
def bodyOnce (input : Input) (g : Grammar) (invoke : Nat → Run S Slot) (rounds index : Nat) :
    Run S Slot :=
  match g.rules[index]? with
  | some r => (·.1) <$> evalOnce O input g invoke rounds g.depthBound r.expression []
  | none => pure .failed

end

/-- Invoke a rule on the state of a parse, for as long as the fuel lasts. -/
def machineOnce {σ : Type} (E : Setting σ) (g : Grammar) : Nat → Nat → Run (State σ) Slot
  | 0, _ => .forever
  | fuel + 1, index =>
    State.rule E index (bodyOnce (machine E) E.input g (machineOnce E g fuel) fuel index)

/-- How a node with an action goes by how its expression goes: if the expression is matched the
action is called once, on the text that was matched and with the labels of the expression, and that
is how the node goes. If the expression is not matched the action is not called. -/
structure CallsOnce (O : Ops S) (source : String) (x : Run S (Slot × Env)) (y : Run S Slot) :
    Prop where
  matched : ∀ s v labels t, x s = some (.ok (v, labels), t) → v ≠ .failed →
    y s = some (O.call ⟨labels.map (·.1), source⟩ (O.pos s) (labels.map (·.2)) t)
  failed : ∀ s labels t, x s = some (.ok (.failed, labels), t) → y s = some (.ok .failed, t)
  aborted : ∀ s e t, x s = some (.error e, t) → y s = some (.error e, t)
  endless : ∀ s, x s = none → y s = none

theorem callsOnce_once (O : Ops S) (source : String) (x : Run S (Slot × Env)) :
    CallsOnce O source x (once O x source) where
  matched s v labels t hx hv := by
    rw [once, Run.bind_ok (here_apply O s), Run.bind_ok hx]
    cases v with
    | failed => exact absurd rfl hv
    | pos p => rfl
    | value v => rfl
  failed s labels t hx := by
    rw [once, Run.bind_ok (here_apply O s), Run.bind_ok hx]
    rfl
  aborted s e t hx := by
    rw [once, Run.bind_ok (here_apply O s), Run.bind_error hx]
  endless s hx := by
    rw [once, Run.bind_ok (here_apply O s), Run.bind_apply, hx]

/-! ## Evaluation with and without an action handed down -/

section

variable {O : Ops S} {input : Input} {g : Grammar} {invoke : Nat → Run S Slot}
  {rounds depth : Nat} {id : NodeId}

theorem members_congr {eval eval' : NodeId → Env → Run S Slot} {es : List NodeId}
    (h : ∀ e ∈ es, eval e = eval' e) (start : Nat) (values : List Slot) (env : Env) :
    members O eval g start es values env = members O eval' g start es values env := by
  induction es generalizing values env with
  | nil => rfl
  | cons e es ih =>
    rw [members, members, h e List.mem_cons_self]
    have hrest := ih fun e he => h e (List.mem_cons_of_mem _ he)
    simp only [hrest]

/-- The elements of a sequence run as its members, and then what stands at the end of it. -/
theorem elements_eq_members (eval : NodeId → Env → Run S Slot) (start : Nat)
    (action? : Option String) (es : List NodeId) (values : List Slot) (env : Env) :
    elements O eval g start (sequenceEnd O action? start) es values env =
      members O eval g start es values env >>= fun r => match action? with
        | some source => if r.1.isFailed then pure r.1 else act O source start r.2
        | none => pure r.1 := by
  induction es generalizing values env with
  | nil => cases action? <;> rfl
  | cons e es ih =>
    rw [elements, members, bind_assoc]
    refine congrArg (eval e env >>= ·) (funext fun v => ?_)
    cases hv : v.isFailed with
    | true => cases action? <;> rfl
    | false => exact ih (v :: values) (env.after g e v)

/-- Only a sequence is told of an action, and only an action tells what is below. -/
theorem level_congr {below below' : NodeId → Env → Option String → Run S Slot}
    (haction : ∀ e source, g.shape id ≠ .action e source) (hsequence : ∀ es, g.shape id ≠ .sequence es)
    (h : ∀ e ∈ g.children id, ∀ env, below e env none = below' e env none) (env : Env)
    (action? : Option String) :
    level O input g invoke rounds below id env action? =
      level O input g invoke rounds below' id env none := by
  rw [Grammar.children] at h
  unfold level
  generalize g.shape id = shape at haction hsequence h ⊢
  cases shape with
  | action e source => exact absurd rfl (haction e source)
  | sequence es => exact absurd rfl (hsequence es)
  | choice es =>
    have hmap : es.map (fun e => below e env none) = es.map (fun e => below' e env none) :=
      List.map_congr_left fun e he => h e he env
    simp only [hmap]
  | range min max e delimiter =>
    have hfirst := h e List.mem_cons_self []
    cases delimiter with
    | none => simp only [hfirst]
    | some d =>
      have hbetween := h d (List.mem_cons_of_mem _ (List.mem_singleton_self d)) []
      simp only [hfirst, hbetween]
  | named name e => simp only [h e List.mem_cons_self]
  | labeled label e => exact h e List.mem_cons_self env
  | text e => simp only [h e List.mem_cons_self]
  | simpleAnd e => simp only [h e List.mem_cons_self]
  | simpleNot e => simp only [h e List.mem_cons_self]
  | optional e => simp only [h e List.mem_cons_self]
  | zeroOrMore e => simp only [h e List.mem_cons_self]
  | oneOrMore e => simp only [h e List.mem_cons_self]
  | _ => rfl

/-- Where an expression is a node that hands nothing down, its action runs around it. -/
theorem once_after (x : Run S Slot) (source : String) (env : Env) :
    once O (x >>= fun v => pure (v, env.after g id v)) source =
      actionAround O g id x source env := by
  rw [once, actionAround]
  refine congrArg (here O >>= ·) (funext fun start => ?_)
  rw [bind_assoc]
  rfl

/-- The members of a sequence run like its elements, whose action is at their end. -/
theorem sequence_once {value : NodeId → Env → Run S Slot} {es : List NodeId}
    (hvalue : ∀ e ∈ es, value e = fun env => eval O input g invoke rounds depth e env none)
    (hid : g.shape id = .sequence es) (env : Env) (action? : Option String) :
    eval O input g invoke rounds (depth + 1) id env action? =
      here O >>= fun start => members O value g start es [] env >>= fun r => match action? with
        | some source => if r.1.isFailed then pure r.1 else act O source start r.2
        | none => pure r.1 := by
  rw [eval, level]
  simp only [hid]
  refine congrArg (here O >>= ·) (funext fun start => ?_)
  rw [elements_eq_members, ← members_congr hvalue]

variable (O input g invoke rounds) in
/-- A node is evaluated as where actions are handed down: it gives the same value, and with an action
on it the same happens. -/
structure Agreed (depth : Nat) (id : NodeId) (env : Env) : Prop where
  value : (·.1) <$> evalOnce O input g invoke rounds depth id env =
    eval O input g invoke rounds depth id env none
  action : ∀ source, g.shape id ≠ .sequence [] →
    once O (evalOnce O input g invoke rounds depth id env) source =
      let x := eval O input g invoke rounds depth id env (some source)
      if Generate.takesOver (g.shape id) then x else actionAround O g id x source env

theorem agreed_sequence {es : List NodeId} (hid : g.shape id = .sequence es)
    (h : ∀ e ∈ es, ∀ env, Agreed O input g invoke rounds depth e env) (env : Env) :
    Agreed O input g invoke rounds (depth + 1) id env := by
  have hvalue : ∀ e ∈ es, (fun env => (·.1) <$> evalOnce O input g invoke rounds depth e env) =
      fun env => eval O input g invoke rounds depth e env none :=
    fun e he => funext fun env => (h e he env).value
  constructor
  · rw [sequence_once hvalue hid, evalOnce]
    simp only [hid]
    rw [map_bind]
    rfl
  · intro source hsome
    rw [hid] at hsome ⊢
    have hover : Generate.takesOver (.sequence es) = true := by
      cases es with
      | nil => exact absurd rfl hsome
      | cons e es => rfl
    rw [sequence_once hvalue hid, evalOnce]
    simp only [hid]
    rw [if_pos hover]
    -- The action node and the sequence begin at the same offset.
    funext s
    rw [once, Run.bind_ok (here_apply O s), bind_assoc, Run.bind_ok (here_apply O s),
      Run.bind_ok (here_apply O s)]

/-- Where no action is handed down, the action on a node runs around it. -/
theorem agreed_of_after {x : Run S Slot} {env : Env} (hover : Generate.takesOver (g.shape id) = false)
    (honce : evalOnce O input g invoke rounds depth id env =
      x >>= fun v => pure (v, env.after g id v))
    (heval : ∀ action?, eval O input g invoke rounds depth id env action? = x) :
    Agreed O input g invoke rounds depth id env := by
  constructor
  · rw [honce, heval, map_bind]
    exact bind_pure x
  · intro source _
    simp only [honce, heval, hover]
    exact once_after x source env

theorem agreed_action {e : NodeId} {source : String} (hid : g.shape id = .action e source)
    (hsome : g.shape e ≠ .sequence []) {env : Env} (h : Agreed O input g invoke rounds depth e env) :
    Agreed O input g invoke rounds (depth + 1) id env := by
  refine agreed_of_after (x := once O (evalOnce O input g invoke rounds depth e env) source)
    (by rw [hid]; rfl) ?_ fun action? => ?_
  · have hafter (v : Slot) : env.after g id v = env := by rw [Env.after, hid]
    rw [evalOnce]
    simp only [hid, hafter]
  · rw [h.action source hsome, eval, level]
    simp only [hid]

theorem agreed_other (haction : ∀ e source, g.shape id ≠ .action e source)
    (hsequence : ∀ es, g.shape id ≠ .sequence es)
    (h : ∀ e ∈ g.children id, ∀ env, Agreed O input g invoke rounds depth e env) (env : Env) :
    Agreed O input g invoke rounds (depth + 1) id env := by
  refine agreed_of_after (x := level O input g invoke rounds (fun e env _ =>
    (·.1) <$> evalOnce O input g invoke rounds depth e env) id env none) ?_ ?_ fun action? => ?_
  · cases hid : g.shape id with
    | sequence es => exact absurd hid (hsequence es)
    | _ => rfl
  · rw [evalOnce]
    split
    · next e source hid => exact absurd hid (haction e source)
    · next es hid => exact absurd hid (hsequence es)
    · rfl
  · rw [eval]
    exact level_congr haction hsequence (fun e he env => (h e he env).value.symm) env action?

/-- Whether actions are handed down does not matter if none stands over a sequence without
elements. -/
theorem agreed (h : ∀ x e source, g.Below id x → g.shape x = .action e source →
    g.shape e ≠ .sequence []) (env : Env) : Agreed O input g invoke rounds depth id env := by
  induction depth generalizing id env with
  | zero =>
    refine ⟨rfl, fun source _ => ?_⟩
    dsimp only
    split <;> rfl
  | succ depth ih =>
    have hchild : ∀ e ∈ g.children id, ∀ env, Agreed O input g invoke rounds depth e env :=
      fun e he => ih fun x e' source hx => h x e' source (.head he hx)
    rw [Grammar.children] at hchild
    cases hid : g.shape id with
    | action e source =>
      rw [hid] at hchild
      exact agreed_action hid (h id e source .refl hid) (hchild e List.mem_cons_self env)
    | sequence es =>
      rw [hid] at hchild
      exact agreed_sequence hid hchild env
    | _ => exact agreed_other (by rw [hid]; rintro _ _ ⟨⟩) (by rw [hid]; rintro _ ⟨⟩) hchild env

end

/-! ## Rules -/

section

variable {g : Grammar} (hactions : ∀ x e source, g.Owned x → g.shape x = .action e source →
  g.shape e ≠ .sequence [])
include hactions

theorem bodyOnce_eq (O : Ops S) (input : Input) (invoke : Nat → Run S Slot) (rounds index : Nat) :
    bodyOnce O input g invoke rounds index = body O input g invoke rounds index := by
  rw [bodyOnce, body]
  cases hr : g.rules[index]? with
  | none => rfl
  | some r =>
    refine (agreed (fun x e source hx => hactions x e source ?_) []).value
    exact ⟨r, List.mem_of_getElem? hr, hx⟩

theorem machineOnce_eq {σ : Type} (E : Setting σ) (fuel : Nat) :
    machineOnce E g fuel = machineRule E g fuel := by
  funext index
  induction fuel generalizing index with
  | zero => rfl
  | succ fuel ih => rw [machineOnce, machineRule, bodyOnce_eq hactions, funext ih]

end

end Peg

open Peg

/-- Generated code calls every action once for each match of its expression: it does what is done
where each action is called after its expression was matched, and not anywhere else. -/
theorem Facts.generate_callsOnce {σ : Type} {E : Setting σ} {g : Grammar} {f : Facts}
    {c : Generated} (hg : f.generate g = .ok c) (hf : f.Resolves g) {trace : Bool}
    (hE : E.program = { c.program g f trace with memoize := false })
    (hfit : E.program.Addressable)
    (hactions : ∀ x e source, g.Owned x → g.shape x = .action e source →
      g.shape e ≠ .sequence []) :
    (∀ index s r, (∃ n, Interpreter.runBody E n index s = some r) ↔
      ∃ n, bodyOnce (machine E) E.input g (machineOnce E g n) n index s = some r) ∧
    ∀ invoke rounds depth id e source env, g.shape id = .action e source →
      CallsOnce (machine E) source (evalOnce (machine E) E.input g invoke rounds depth e env)
        ((·.1) <$> evalOnce (machine E) E.input g invoke rounds (depth + 1) id env) := by
  have hcarries : E.program.Carries c := by
    obtain ⟨hcode, hconstants, hactions⟩ := c.program_carries hg trace
    exact hE ▸ ⟨hcode, hconstants, hactions⟩
  constructor
  · intro index s r
    simp only [machineOnce_eq hactions, bodyOnce_eq hactions]
    exact hcarries.interpreter_iff hg hf hfit
  · intro invoke rounds depth id e source env hid
    have honce : (·.1) <$> evalOnce (machine E) E.input g invoke rounds (depth + 1) id env =
        once (machine E) (evalOnce (machine E) E.input g invoke rounds depth e env) source := by
      rw [evalOnce]
      simp only [hid]
      rw [map_bind]
      exact bind_pure _
    rw [honce]
    exact callsOnce_once _ _ _

/-- The code that runs on any character is run once on a character, with it as its argument. -/
theorem labeledCharacter_callsOnce : ∃ t, (∃ n, bodyOnce (machine labeledCharacterSetting)
    (.ofString "x") labeledCharacter (machineOnce labeledCharacterSetting labeledCharacter n) n 0
      (labeledCharacterSetting.initial (.zero []) 0) =
        some (.ok (.value (.array [.string "x"])), t)) ∧ t.handlerState = 1 := by
  have hg : (Facts.linked labeledCharacter).generate labeledCharacter =
    .ok labeledCharacterCode := by cbv
  have hrun : (Interpreter.runBody labeledCharacterSetting 12 0
      (labeledCharacterSetting.initial (.zero []) 0)).map (fun r => (r.1, r.2.handlerState)) =
        some (.ok (.value (.array [.string "x"])), 1) := by cbv
  obtain ⟨⟨o, s'⟩, hs', hsame⟩ := Option.map_eq_some_iff.mp hrun
  obtain ⟨rfl, hcalls⟩ := Prod.mk.inj hsame
  have hfit : labeledCharacterSetting.program.Addressable := by
    constructor <;> decide
  have hactions : ∀ x e source, labeledCharacter.Owned x →
      labeledCharacter.shape x = .action e source → labeledCharacter.shape e ≠ .sequence [] := by
    intro x e source _ _
    exact Grammar.forall_shape (P := (· ≠ .sequence [])) (by decide) (by decide) e
  exact ⟨s', ((Facts.generate_callsOnce hg (Facts.resolves_link _ _ _)
    (E := labeledCharacterSetting) rfl hfit hactions).1 0 _ _).mp ⟨12, hs'⟩, hcalls⟩

/-- A grammar with one rule, which runs code on a sequence without elements. -/
def emptyAction : Grammar where
  rules := [{ name := "start", expression := 1 }]
  nodes := #[⟨.sequence [], none⟩, ⟨.action 0 "c", none⟩]

/-- The code of that rule. -/
def emptyActionCode : Generated where
  code := [[Code.op .pushCurrPos, Code.op .pushCurrPos, Code.op1 .loadSavedPos 0,
    .plain .call [0, 0, 0], Code.op .nip,
    .branch .ifNotError [] [Code.op1 .loadSavedPos 1, .plain .call [0, 1, 0]] [], Code.op .nip]]
  pools := { actions := #[⟨[], "c"⟩] }

/-- A parse with that rule, where calls are counted. -/
def emptyActionSetting : Setting Nat where
  program := { emptyActionCode.program emptyAction (.linked emptyAction) false
    with memoize := false }
  input := .ofString ""
  handler _ _ _ _ calls := (.ok .null, calls + 1)

/-- There the code is run twice: by the sequence, and by the action node again. -/
example : (Facts.linked emptyAction).generate emptyAction = .ok emptyActionCode ∧
    (Interpreter.runBody emptyActionSetting 12 0
      (emptyActionSetting.initial (.zero []) 0)).map (·.2.handlerState) = some 2 := by
  constructor
  · cbv
  · cbv

end PegMachine
