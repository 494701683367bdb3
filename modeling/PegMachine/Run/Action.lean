import PegMachine.Location.Tracker
import PegMachine.Program
import PegMachine.Text.Quoted
import PegMachine.Value

/-!
# Actions

What a program does with its pool of actions is not its own business: it asks a handler. A handler
is given an entry of the pool, a view of the parse and the values of the labels, and answers with a
value or refuses. It may keep a state from call to call.
-/

namespace PegMachine

/-- What an action sees of the parse. -/
structure ActionContext where
  /-- The whole input. -/
  input : Input
  /-- Where the matched text starts. -/
  start : Nat
  /-- Where the matched text ends. -/
  stop : Nat
  /-- The name of the rule that the action belongs to. -/
  ruleName : String

namespace ActionContext

/-- The matched text. -/
def text (c : ActionContext) : String := c.input.slice c.start c.stop

/-- The place of the matched text. -/
def location (c : ActionContext) : Location := Location.ofRange c.input c.start c.stop

end ActionContext

/-- Why an action gives no value. -/
inductive Refusal where
  /-- The match is withdrawn and the parse goes on. -/
  | withdraw
  /-- The parse ends because something else was expected. -/
  | expected (description : String)
  /-- The parse ends with a message. -/
  | error (message : String)
  /-- Nobody provides the action. -/
  | unbound
  deriving DecidableEq, Repr, Inhabited

/-- The message of a refusal. -/
def Refusal.message : Refusal → String
  | .withdraw => "action failed"
  | .expected description => "expected " ++ description
  | .error message => message
  | .unbound => "no handler bound"

/-- A handler of actions with a state of type `σ`. -/
abbrev Handler (σ : Type) :=
  Nat → Program.Action → ActionContext → List Value → σ → Except Refusal Value × σ

namespace Handler

/-- The handler that provides nothing. -/
def none {σ : Type} : Handler σ := fun _ _ _ _ s => (.error .unbound, s)

end Handler

/-! ## Tables of actions -/

/-- What code does: the body of an action. -/
abbrev ActionBody (σ : Type) := ActionContext → List Value → σ → Except Refusal Value × σ

/-- Actions by their code. -/
structure ActionTable (σ : Type) where
  /-- The code that is provided, each once, and what it does. -/
  entries : List (String × ActionBody σ) := []

namespace ActionTable

variable {σ : Type}

/-- Provide a body for all actions with some code, in place of any other body for it. -/
def insert (t : ActionTable σ) (code : String) (body : ActionBody σ) : ActionTable σ :=
  ⟨t.entries.filter (·.1 ≠ code) ++ [(code, body)]⟩

/-- The body for some code. -/
def find? (t : ActionTable σ) (code : String) : Option (ActionBody σ) :=
  (t.entries.find? (·.1 = code)).map (·.2)

/-- The number of bodies. -/
def size (t : ActionTable σ) : Nat := t.entries.length

/-- Whether nothing is provided. -/
def isEmpty (t : ActionTable σ) : Bool := t.entries.isEmpty

/-- The handler that looks actions up by their code. -/
def handler (t : ActionTable σ) : Handler σ := fun _ action context args s =>
  match t.find? action.code with
  | some body => body context args s
  | none => (.error .unbound, s)

/-- A table as it is shown to a person: its codes, sorted. -/
def describe (t : ActionTable σ) : String :=
  "ActionTable \x7b codes: ["
    ++ ", ".intercalate (((t.entries.map (·.1)).mergeSort (· ≤ ·)).map Text.quote) ++ "] \x7d"

end ActionTable

/-! ## Recording calls -/

/-- The record of one call. -/
structure ActionCall where
  /-- The index of the action. -/
  index : Nat
  /-- The action. -/
  action : Program.Action
  /-- What the action saw. -/
  context : ActionContext
  /-- The values of the labels. -/
  args : List Value
  /-- The answer. -/
  result : Except Refusal Value

/-- A handler that also records the calls, newest first. -/
def Handler.recording {σ : Type} (h : Handler σ) : Handler (σ × List ActionCall) :=
  fun index action context args (s, calls) =>
    let (result, s) := h index action context args s
    (result, s, ⟨index, action, context, args, result⟩ :: calls)

end PegMachine
