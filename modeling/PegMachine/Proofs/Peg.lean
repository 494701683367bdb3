import PegMachine.Generate.Code
import PegMachine.Proofs.Run

/-!
# What expressions mean

A recognizer evaluates an expression tree by recursion: it tries alternatives in order, keeps the
values of labels by name, and goes back to where an expression began when it fails. There is no
code, no stack and no slot here; this is what generated code is measured against.

The evaluator is written over `Ops`, what a recognizer can do to its state. `Peg.machine` does it
to the state of a parse. `Peg.points` does it to a `Point`, which is no more than a place in the
input, the reports made so far and the state of the handler: it never memoizes, never counts and
knows no silent regions, since what is reported inside of one is just dropped at its end.
-/

namespace PegMachine

/-- The values of the labels in scope, in the order of their binding. -/
abbrev Env := List (String × Value)

namespace Env

/-- Bind a label; a label that is bound already keeps its place in the order. -/
def bind (label : String) (v : Value) : Env → Env
  | [] => [(label, v)]
  | (other, w) :: rest =>
    if other = label then (other, v) :: rest else (other, w) :: bind label v rest

/-- The labels in scope after an expression that gave a value. -/
def after (g : Grammar) (id : NodeId) (v : Slot) (env : Env) : Env :=
  match g.shape id with
  | .labeled (some label) _ => env.bind label v.toValue
  | _ => env

end Env

namespace Peg

/-- What a recognizer does to a state. -/
structure Ops (S : Type) where
  /-- The current offset. -/
  pos : S → Nat
  /-- Go to an offset. -/
  goTo : Nat → S → S
  /-- Fail for want of something. -/
  fail : Expectation → S → S
  /-- Fail without a report. -/
  discard : S → S
  /-- Stop reporting failures. -/
  hush : S → S
  /-- Report failures again as in an earlier state, given how the part in between went out. -/
  unhush : S → Outcome Slot → S → S
  /-- Run an action on the text from an offset to the current one and the values of labels. -/
  call : Program.Action → Nat → List Value → S → Outcome Slot × S

/-! ## Terminals -/

/-- The text that a terminal takes at an offset, if it matches there. Characters of a literal are
counted in 32 bits. -/
def taken? (input : Input) (pos : Nat) : Shape → Option (List Char)
  | .literal value ignoreCase =>
    if value.isEmpty then some []
    else if ignoreCase then
      if Text.startsWithLowered (Unicode.lowerText value.toList) (input.rest pos) then
        some ((input.rest pos).take (UInt32.ofNat value.length).toNat)
      else none
    else if value.toList.isPrefixOf (input.rest pos) then some value.toList else none
  | .charClass parts inverted ignoreCase _ =>
    if parts.isEmpty then
      if inverted && decide (pos < input.size) then some ((input.rest pos).take 1) else none
    else
      let pattern := Regex.compile? (Regex.anchored (classPattern parts inverted) ignoreCase false)
      if pattern.any (·.isMatch (input.rest pos)) then some ((input.rest pos).take 1) else none
  | .regex value ignoreCase multiLine _ =>
    let pattern := Regex.compile? (Regex.anchored value ignoreCase multiLine)
    if pattern.any (·.isMatch (input.rest pos)) then
      let length := (pattern.bind (·.matchEnd? (input.rest pos))).getD 0
      some (Text.takeBytes length (input.rest pos))
    else none
  | .any => if pos < input.size then some ((input.rest pos).take 1) else none
  | .epsilon => some []
  | _ => none

/-- What a terminal wants. -/
def wanted : Shape → Expectation
  | .literal value _ => .literal value
  | .charClass _ _ _ raw => .ofClass raw
  | .regex _ _ _ raw => .regex raw
  | _ => .any

variable {S : Type}

section

variable (O : Ops S)

/-! ## Single steps -/

/-- The current offset. -/
def here : Run S Nat := fun s => some (.ok (O.pos s), s)

/-- Go to an offset. -/
def goTo (p : Nat) : Run S Unit := fun s => some (.ok (), O.goTo p s)

/-- Fail for want of something. -/
def want (e : Expectation) : Run S Slot := fun s => some (.ok .failed, O.fail e s)

/-- Fail without a report. -/
def discard : Run S Slot := fun s => some (.ok .failed, O.discard s)

/-- Go back to an offset and fail without a report. -/
def retreat (p : Nat) : Run S Slot := do
  goTo O p
  discard O

/-- Run an action on the text from an offset on. -/
def act (source : String) (start : Nat) (env : Env) : Run S Slot := fun s =>
  some (O.call ⟨env.map (·.1), source⟩ start (env.map (·.2)) s)

/-- Do something while failures are not reported. -/
def quietly (x : Run S Slot) : Run S Slot := fun s =>
  match x (O.hush s) with
  | some (o, t) => some (o, O.unhush s o t)
  | none => none

@[simp] theorem here_apply (s : S) : here O s = some (.ok (O.pos s), s) := rfl

@[simp] theorem goTo_apply (p : Nat) (s : S) : goTo O p s = some (.ok (), O.goTo p s) := rfl

@[simp] theorem want_apply (e : Expectation) (s : S) :
    want O e s = some (.ok .failed, O.fail e s) := rfl

@[simp] theorem discard_apply (s : S) : discard O s = some (.ok .failed, O.discard s) := rfl

@[simp] theorem retreat_apply (p : Nat) (s : S) :
    retreat O p s = some (.ok .failed, O.discard (O.goTo p s)) := rfl

@[simp] theorem act_apply (source : String) (start : Nat) (env : Env) (s : S) :
    act O source start env s = some (O.call ⟨env.map (·.1), source⟩ start (env.map (·.2)) s) := rfl

/-- Take what a terminal matches. -/
def terminal (input : Input) (shape : Shape) : Run S Slot := fun s =>
  match taken? input (O.pos s) shape with
  | some text => some (.ok (.text (String.ofList text)), O.goTo (O.pos s + Text.byteSize text) s)
  | none => some (.ok .failed, O.fail (wanted shape) s)

/-! ## Composite expressions -/

/-- An expression that failures report under a name. -/
def named (name : String) (x : Run S Slot) : Run S Slot := do
  let v ← quietly O x
  if v.isFailed then want O (.other name) else return v

/-- The first alternative that does not fail. -/
def choice : List (Run S Slot) → Run S Slot
  | [] => pure .failed
  | [last] => last
  | first :: rest => do
    let v ← first
    if v.isFailed then choice rest else return v

/-- The matched text in place of the value. -/
def text (input : Input) (x : Run S Slot) : Run S Slot := do
  let start ← here O
  let v ← x
  if v.isFailed then return v else
    let stop ← here O
    return .text (input.slice start stop)

/-- A match or nothing. -/
def optional (x : Run S Slot) : Run S Slot := do
  let v ← x
  if v.isFailed then return .value .null else return v

/-- A predicate on what follows. -/
def predicate (negative : Bool) (x : Run S Slot) : Run S Slot := do
  let start ← here O
  let v ← quietly O x
  if negative then
    if v.isFailed then return .value .undefined else retreat O start
  else if v.isFailed then discard O
  else
    goTo O start
    return .value .undefined

/-- Code that has to answer true, or false. -/
def semantic (source : String) (negative : Bool) (env : Env) : Run S Slot := do
  let start ← here O
  let v ← quietly O (act O source start env)
  if v.isTruthy = negative then discard O else return .value .undefined

/-- Code that gives a value. -/
def code (source : String) (env : Env) : Run S Slot := do
  let start ← here O
  let v ← act O source start env
  if v.isFailed then want O (.code source) else return v

/-- Whether one more item may follow an item. -/
def mayFollow (a : List Value × Slot) (_ : S) : Bool := !a.2.isFailed

/-- Keep an item and look for one more. -/
def another (again : List Value → Run S Slot) (a : List Value × Slot) :
    Run S (List Value × Slot) := do
  let items := a.1 ++ [a.2.toValue]
  let next ← again items
  return (items, next)

/-- Items for as long as there are any, given the first one and how to find one after some others,
which may take forever after a number of rounds. -/
def items (rounds : Nat) (again : List Value → Run S Slot) (first : Slot) : Run S (List Value) := do
  let (items, _) ← Run.repeatWhile mayFollow (another again) rounds ([], first)
  return items

/-- Any number of matches. -/
def zeroOrMore (rounds : Nat) (x : Run S Slot) : Run S Slot := do
  let first ← x
  let values ← items rounds (fun _ => x) first
  return .value (.array values)

/-- At least one match. -/
def oneOrMore (rounds : Nat) (x : Run S Slot) : Run S Slot := do
  let first ← x
  if first.isFailed then discard O else
    let values ← items rounds (fun _ => x) first
    return .value (.array values)

/-- A delimiter and one more item. -/
def delimited (delimiter x : Run S Slot) : Run S Slot := do
  let start ← here O
  let d ← delimiter
  if d.isFailed then return d else
    let v ← x
    if v.isFailed then retreat O start else return v

/-- An item after some others, unless there are enough of them. -/
def bounded (max : Option UInt32) (further : Run S Slot) (items : List Value) : Run S Slot :=
  match max with
  | some max => if max.toNat ≤ items.length then discard O else further
  | none => further

/-- A bounded number of matches. -/
def range (rounds : Nat) (min : UInt32) (max : Option UInt32) (x further : Run S Slot) :
    Run S Slot := do
  let start ← here O
  let first ← x
  let values ← items rounds (bounded O max further) first
  if values.length < min.toNat then retreat O start else return .value (.array values)

/-- The elements of a sequence that began at an offset, one after the other, around what is done
with their values, the last one first. -/
def elements (eval : NodeId → Env → Run S Slot) (g : Grammar) (start : Nat)
    (finish : List Slot → Env → Run S Slot) : List NodeId → List Slot → Env → Run S Slot
  | [], values, env => finish values env
  | e :: rest, values, env => do
    let v ← eval e env
    if v.isFailed then retreat O start
    else elements eval g start finish rest (v :: values) (env.after g e v)

/-- What is done with the values of a sequence: they make a list, or an action is run. -/
def sequenceEnd (action? : Option String) (start : Nat) (values : List Slot) (env : Env) :
    Run S Slot :=
  match action? with
  | some source => act O source start env
  | none => pure (.wrap values.reverse)

/-- The action of an expression that is no sequence. -/
def actionAround (g : Grammar) (e : NodeId) (x : Run S Slot) (source : String) (env : Env) :
    Run S Slot := do
  let start ← here O
  let v ← x
  if v.isFailed then return v else act O source start (env.after g e v)

/-! ## Expressions -/

/-- Evaluate a node, given how rules are invoked, how many rounds a repetition may take, how the
nodes below are evaluated, and the action that takes over the end of the node, if there is one. -/
def level (input : Input) (g : Grammar) (invoke : Nat → Run S Slot) (rounds : Nat)
    (below : NodeId → Env → Option String → Run S Slot) (id : NodeId) (env : Env)
    (action? : Option String) : Run S Slot :=
  let child (e : NodeId) : Run S Slot := below e env none
  let alone (e : NodeId) : Run S Slot := below e [] none
  match g.shape id with
  | .named name e => named O name (child e)
  | .choice alternatives => choice (alternatives.map child)
  | .action e source =>
    -- A sequence without elements does not take over, and still runs the action at its end.
    let x := below e env (some source)
    if Generate.takesOver (g.shape e) then x else actionAround O g e x source env
  | .sequence es => do
    let start ← here O
    elements O (fun e env => below e env none) g start (sequenceEnd O action? start) es [] env
  | .labeled _ e => child e
  | .text e => text O input (child e)
  | .simpleAnd e => predicate O false (child e)
  | .simpleNot e => predicate O true (child e)
  | .optional e => optional (child e)
  | .zeroOrMore e => zeroOrMore rounds (child e)
  | .oneOrMore e => oneOrMore O rounds (child e)
  | .range min max e delimiter =>
    if max = some 0 ∧ min = 0 then return .emptyArray
    else
      let further := match delimiter with
        | some d => delimited O (alone d) (alone e)
        | none => alone e
      range O rounds min max (alone e) further
  | .semanticAnd source => semantic O source false env
  | .semanticNot source => semantic O source true env
  | .ruleRef name =>
    match g.ruleIndex? name with
    | some index => invoke index
    | none => pure .failed
  | .code source => code O source env
  | shape => terminal O input shape

/-- Evaluate a node, given a bound on the depth below it. -/
def eval (input : Input) (g : Grammar) (invoke : Nat → Run S Slot) (rounds : Nat) :
    Nat → NodeId → Env → Option String → Run S Slot
  | 0, _, _, _ => .forever
  | depth + 1, id, env, action? =>
    level O input g invoke rounds (eval input g invoke rounds depth) id env action?

/-- Evaluate the expression of a rule. -/
def body (input : Input) (g : Grammar) (invoke : Nat → Run S Slot) (rounds index : Nat) :
    Run S Slot :=
  match g.rules[index]? with
  | some r => eval O input g invoke rounds g.depthBound r.expression [] none
  | none => pure .failed

end

/-! ## On the state of a parse -/

section

variable {σ : Type} (E : Setting σ)

/-- The index of an action in the pool of a program. -/
def actionIndex (p : Program) (a : Program.Action) : Nat :=
  (p.actions.findIdx? (· = a)).getD p.actions.size

/-- A recognizer that works on the state of a parse. -/
def machine : Ops (State σ) where
  pos s := s.pos
  goTo p s := { s with pos := p }
  fail e s := s.failFor e
  discard s := s.pushFailed.2
  hush s := s.silentOn
  unhush _ o s := match o with
    | .ok _ => s.silentOff
    | .error _ => s
  call a start args s :=
    { s with savedPos := start }.perform E (actionIndex E.program a) a args

section

variable (s : State σ)

@[simp] theorem machine_pos : (machine E).pos s = s.pos := rfl

@[simp] theorem machine_goTo (p : Nat) : (machine E).goTo p s = { s with pos := p } := rfl

@[simp] theorem machine_fail (e : Expectation) : (machine E).fail e s = s.failFor e := rfl

@[simp] theorem machine_discard : (machine E).discard s = s.pushFailed.2 := rfl

@[simp] theorem machine_hush : (machine E).hush s = s.silentOn := rfl

@[simp] theorem machine_unhush_ok (entry : State σ) (v : Slot) :
    (machine E).unhush entry (.ok v) s = s.silentOff := rfl

@[simp] theorem machine_unhush_error (entry : State σ) (e : ParseFailure) :
    (machine E).unhush entry (.error e) s = s := rfl

@[simp] theorem machine_call (a : Program.Action) (start : Nat) (args : List Value) :
    (machine E).call a start args s =
      { s with savedPos := start }.perform E (actionIndex E.program a) a args := rfl

end

/-- Invoke a rule on the state of a parse, for as long as the fuel lasts. -/
def machineRule (g : Grammar) : Nat → Nat → Run (State σ) Slot
  | 0, _ => .forever
  | fuel + 1, index =>
    State.rule E index (body (machine E) E.input g (machineRule g fuel) fuel index)

/-! ## On points -/

/-- All that a recognizer needs to know. -/
structure Point (σ : Type) where
  /-- The current offset. -/
  pos : Nat
  /-- The rule that is being run. -/
  rule : Option Nat
  /-- The reports so far with their offsets, newest first. -/
  reports : List (Nat × Expectation)
  /-- The state of the handler of actions. -/
  handlerState : σ

/-- What an action sees that is run on the text from an offset on. -/
def Point.context (t : Point σ) (start : Nat) : ActionContext where
  input := E.input
  start := start
  stop := t.pos
  ruleName := t.rule.elim "" E.program.ruleName

/-- Run an action at a point. -/
def Point.call (a : Program.Action) (start : Nat) (args : List Value) (t : Point σ) :
    Outcome Slot × Point σ :=
  let index := actionIndex E.program a
  let context := t.context E start
  let (answer, handlerState) := E.handler index a context args t.handlerState
  let t := { t with handlerState }
  match answer with
  | .ok value => (.ok (.value value), t)
  | .error .withdraw => (.ok .failed, { t with pos := start })
  | .error (.expected description) =>
    (.error (.mismatch (.ofExpected [.other description] (some context.text) context.location)), t)
  | .error (.error message) =>
    (.error (.mismatch (.custom message (some context.text) context.location)), t)
  | .error .unbound => (.error (.unboundAction index a.code), t)

/-- A recognizer that works on points. -/
def points : Ops (Point σ) where
  pos t := t.pos
  goTo p t := { t with pos := p }
  fail e t := { t with reports := (t.pos, e) :: t.reports }
  discard t := t
  hush t := t
  unhush entry _ t := { t with reports := entry.reports }
  call := Point.call E

/-- Evaluate the expression of a rule from a point, where rules invoked on the way are evaluated
in the same way, for as long as the fuel lasts. -/
def pointRule (g : Grammar) : Nat → Nat → Run (Point σ) Slot
  | 0, _ => .forever
  | fuel + 1, index => fun t =>
    match body (points E) E.input g (pointRule g fuel) fuel index { t with rule := some index } with
    | some (o, u) => some (o, { u with rule := t.rule })
    | none => none

end

end Peg

end PegMachine
