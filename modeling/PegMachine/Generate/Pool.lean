import PegMachine.Machine.Block
import PegMachine.Program

/-!
# Pools

While code is generated, constants and actions are collected in pools. An entry is added once; the
same entry has the same index ever after. Defects of the grammar that only show now are collected
too.
-/

namespace PegMachine

/-- Why code cannot be generated. -/
inductive GenerateError where
  /-- The stack would be moved inconsistently. -/
  | effect (e : StackEffectError)
  /-- A label lies above the top of the stack where its value is needed. -/
  | labelAboveTop (label : String) (slot : Nat) (height : Nat)
  /-- A rule does not leave exactly one entry. -/
  | unbalanced (rule : String) (effect : Int32)
  /-- A reference refers to no rule. -/
  | unresolved (rule : String)
  deriving DecidableEq, Repr

/-- The message of an error. -/
def GenerateError.message : GenerateError → String
  | .effect e => e.message
  | .labelAboveTop label slot height =>
    "label \"" ++ label ++ s!"\" at stack index {slot} is above the top ("
      ++ toString ((height : Int) - 1) ++ ")"
  | .unbalanced rule n => "rule \"" ++ rule ++ s!"\" leaves {n.toInt} entries on the stack"
  | .unresolved rule => "reference to rule \"" ++ rule ++ "\" was not resolved"

/-- What is collected while code is generated. -/
structure Pools where
  /-- The pool of constants. -/
  constants : Array Program.Constant := #[]
  /-- The pool of actions. -/
  actions : Array Program.Action := #[]
  /-- The defects of the grammar that were found. -/
  defects : Array (String × Option Location) := #[]
  deriving DecidableEq, Repr, Inhabited

namespace Pools

/-- The index of an entry in a pool, and the pool with it. -/
def entry {α : Type} [DecidableEq α] (pool : Array α) (a : α) : Nat × Array α :=
  match pool.findIdx? (· = a) with
  | some index => (index, pool)
  | none => (pool.size, pool.push a)

/-- The entry is found at its index. -/
theorem getElem?_entry {α : Type} [DecidableEq α] (pool : Array α) (a : α) :
    (entry pool a).2[(entry pool a).1]? = some a := by
  unfold entry
  split
  · next index h =>
    obtain ⟨hlt, ha, _⟩ := Array.findIdx?_eq_some_iff_getElem.mp h
    simp_all
  · simp

/-- An entry that was there before keeps its index. -/
theorem getElem?_entry_of_lt {α : Type} [DecidableEq α] {pool : Array α} {index : Nat} (a : α)
    (h : index < pool.size) : (entry pool a).2[index]? = pool[index]? := by
  unfold entry
  split
  · rfl
  · simp [Array.getElem?_push, Nat.ne_of_lt h]

end Pools

/-- A computation that generates code. -/
abbrev Generate := StateT Pools (Except GenerateError)

namespace Generate

/-- Add a constant. -/
def constant (c : Program.Constant) : Generate UInt32 := fun p =>
  let (index, constants) := Pools.entry p.constants c
  .ok (UInt32.ofNat index, { p with constants })

/-- Add a string constant. -/
def string (value : String) : Generate UInt32 := constant (.string value)

/-- Add an expectation. -/
def expectation (e : Expectation) : Generate UInt32 := constant (.expected e)

/-- Add a pattern. -/
def pattern (source : String) (ignoreCase multiLine : Bool) : Generate UInt32 :=
  constant (.pattern source ignoreCase multiLine)

/-- Add an action. -/
def action (params : List String) (code : String) : Generate UInt32 := fun p =>
  let (index, actions) := Pools.entry p.actions ⟨params, code⟩
  .ok (UInt32.ofNat index, { p with actions })

/-- Collect a defect. -/
def defect (message : String) (location : Option Location) : Generate Unit := fun p =>
  .ok ((), { p with defects := p.defects.push (message, location) })

/-- Give up. -/
def fail {α : Type} (e : GenerateError) : Generate α := fun _ => .error e

/-- A condition. -/
def branch (opcode : Opcode) (operands : List UInt32) (held otherwise : Code) :
    Generate Instr := fun p =>
  match Code.branch opcode operands held otherwise with
  | .ok i => .ok (i, p)
  | .error e => .error (.effect e)

/-- A loop. -/
def loop (body : Code) : Generate Instr := fun p =>
  match Code.loop body with
  | .ok i => .ok (i, p)
  | .error e => .error (.effect e)

end Generate

end PegMachine
