import PegMachine.Machine.Routine
import PegMachine.Run.State

/-!
# Running routines

The other executor: statements over numbered slots in place of instructions over a stack. A slot
that does not exist reads as a failure, and writing to it changes nothing.
-/

namespace PegMachine

namespace Routine

variable {σ : Type}

/-- The content of a slot. -/
def slot (slots : Array Slot) (i : Nat) : Slot := slots.getD i .failed

/-- Whether a condition holds. -/
def Cond.holds (E : Setting σ) (cond : Cond) (slots : Array Slot) (s : State σ) : Bool :=
  match cond with
  | .truthy i => (slot slots i).isTruthy
  | .isFailed i => (slot slots i).isFailed
  | .notFailed i => !(slot slots i).isFailed
  | .matchAny => s.matchAny E
  | .matchString c => s.matchString E c
  | .matchStringIc c => s.matchStringIc E c
  | .matchRegexp c => s.matchRegexp E c
  | .arrayShorter i n => decide ((slot slots i).arrayLength < n)
  | .arrayAtLeast i n => decide (n ≤ (slot slots i).arrayLength)

/-- Leave a failure in some slots from a first one on. -/
def clear (slots : Array Slot) (first : Nat) : Nat → Array Slot
  | 0 => slots
  | n + 1 => clear (slots.setIfInBounds first .failed) (first + 1) n

/-- The value of an expression that invokes no rule and no action. -/
def Expr.simple (E : Setting σ) (slots : Array Slot) (s : State σ) :
    Expr → Slot × Array Slot × State σ
  | .const c => (State.constant E c, slots, s)
  | .currPos => (s.here, slots, s)
  | .take i => (slot slots i, slots.setIfInBounds i .failed, s)
  | .undefined => (.value .undefined, slots, s)
  | .null => (.value .null, slots, s)
  | .failed => let (r, s) := s.pushFailed; (r, slots, s)
  | .emptyArray => (.emptyArray, slots, s)
  | .wrap first n =>
    (.wrap ((List.range n).map fun i => slot slots (first + i)), clear slots first n, s)
  | .text i => (s.textFrom E (slot slots i), slots, s)
  | .acceptN n => let (r, s) := s.acceptN E n; (r, slots, s)
  | .acceptString c => let (r, s) := s.acceptString E c; (r, slots, s)
  | .acceptRegexp c => let (r, s) := s.acceptRegexp E c; (r, slots, s)
  | .fail c => let (r, s) := s.fail E c; (r, slots, s)
  | .call _ _ => (.failed, slots, s)
  | .rule _ => (.failed, slots, s)

mutual

/-- Run a statement, given how rules are invoked and how many rounds a loop may take. -/
def exec (E : Setting σ) (invoke : Nat → Run (State σ) Slot) (rounds : Nat) :
    Stmt → Array Slot → Run (State σ) (Array Slot)
  | .assign target (.call action args), slots => fun s =>
    match s.call E action (args.map fun i => (slot slots i).toValue) with
    | (.ok value, s) => some (.ok (slots.setIfInBounds target value), s)
    | (.error e, s) => some (.error e, s)
  | .assign target (.rule index), slots => do
    let value ← invoke index
    return slots.setIfInBounds target value
  | .assign target value, slots => fun s =>
    let (value, slots, s) := value.simple E slots s
    some (.ok (slots.setIfInBounds target value), s)
  | .restorePos i, slots => fun s => some (.ok slots, s.restorePos (slot slots i))
  | .loadSavedPos i, slots => fun s => some (.ok slots, s.loadSavedPos (slot slots i))
  | .updateSavedPos, slots => fun s => some (.ok slots, s.updateSavedPos)
  | .silentOn, slots => fun s => some (.ok slots, s.silentOn)
  | .silentOff, slots => fun s => some (.ok slots, s.silentOff)
  | .silentReset, slots => fun s => some (.ok slots, s.silentReset)
  | .append array item, slots =>
    let value := slot slots item
    let slots := slots.setIfInBounds item .failed
    return slots.setIfInBounds array ((slot slots array).push value)
  | .branch cond held otherwise, slots => fun s =>
    if cond.holds E slots s then execAll E invoke rounds held slots s
    else execAll E invoke rounds otherwise slots s
  | .loop cond body, slots =>
    Run.repeatWhile (cond.holds E) (execAll E invoke rounds body) rounds slots

/-- Run statements one after the other. -/
def execAll (E : Setting σ) (invoke : Nat → Run (State σ) Slot) (rounds : Nat) :
    List Stmt → Array Slot → Run (State σ) (Array Slot)
  | [], slots => pure slots
  | stmt :: rest, slots => do
    let slots ← exec E invoke rounds stmt slots
    execAll E invoke rounds rest slots

end

/-- Run the routine of a rule, without what surrounds an invocation. -/
def runBody (E : Setting σ) (routines : Array Routine) (invoke : Nat → Run (State σ) Slot)
    (rounds index : Nat) : Run (State σ) Slot :=
  match routines[index]? with
  | none => pure .failed
  | some r => do
    let slots ← execAll E invoke rounds r.body (Array.replicate r.slots .failed)
    return slot slots 0

/-- Invoke a rule, for as long as the fuel lasts. -/
def runRule (E : Setting σ) (routines : Array Routine) : Nat → Nat → Run (State σ) Slot
  | 0, _ => .forever
  | fuel + 1, index =>
    State.rule E index (runBody E routines (runRule E routines fuel) fuel index)

/-- The routines of all rules of a program. -/
def unrollFrom (index : Nat) : List Program.Rule → Except UnrollError (List Routine)
  | [] => .ok []
  | r :: rest => do
    let first ← unroll index r.name r.code
    let others ← unrollFrom (index + 1) rest
    return first :: others

end Routine

/-- The routines of all rules of a program. -/
def Program.routines (p : Program) : Except UnrollError (Array Routine) :=
  (Routine.unrollFrom 0 p.rules.toList).map List.toArray

end PegMachine
