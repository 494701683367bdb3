import PegMachine.Run.Action

/-!
# Stock actions

Actions that need no code of their own: they answer with the text, with their arguments, with
something computed from them, or refuse. They share a count of how often each of them ran.
-/

namespace PegMachine

/-- An action from stock. -/
inductive StockAction where
  /-- The matched text. -/
  | text
  /-- An argument; undefined if there is none. -/
  | arg (index : Nat)
  /-- All arguments. -/
  | args
  /-- A constant. -/
  | const (value : Value)
  /-- A refusal. -/
  | refuse (r : Refusal)
  /-- The matched text as a whole number; withdrawn if it is none. -/
  | int
  /-- The sum of the arguments that are whole numbers, in 64 bits. -/
  | sum
  /-- Whether an argument is the same as a value. -/
  | is (index : Nat) (value : Value)
  /-- The matched text unless it has too many bytes. -/
  | maxLength (n : Nat)
  /-- How often the action has run. -/
  | count
  /-- What the action sees of the parse. -/
  | where

namespace StockAction

/-- How often actions have run, by code. -/
abbrev Counts := List (String × Nat)

/-- Count one more run of an action. -/
def countUp (code : String) : Counts → Nat × Counts
  | [] => (1, [(code, 1)])
  | (other, n) :: rest =>
    if other = code then (n + 1, (other, n + 1) :: rest)
    else
      let (m, rest) := countUp code rest
      (m, (other, n) :: rest)

/-- The value of decimal digits. -/
def digits? (digits : List Char) : Option Nat :=
  if digits.isEmpty ∨ digits.any (fun c => ¬ c.isDigit) then none
  else some (digits.foldl (fun n c => 10 * n + (c.toNat - 48)) 0)

/-- The whole number of 64 bits that a text is, with a sign or without. -/
def int64? (text : List Char) : Option Int64 := do
  let n ← match text with
    | '-' :: rest => (digits? rest).map fun n => -(n : Int)
    | '+' :: rest => (digits? rest).map fun n => (n : Int)
    | text => (digits? text).map fun n => (n : Int)
  if -0x8000000000000000 ≤ n ∧ n < 0x8000000000000000 then some (Int64.ofInt n) else none

/-- A number as a value. -/
def number (n : Nat) : Value := .int (Int64.ofNat n)

/-- What an action sees of the parse, as a value. -/
def whereValue (c : ActionContext) : Value :=
  let l := c.location
  .ofMembers [("text", .string c.text), ("offset", number c.start), ("end", number c.stop),
    ("rule", .string c.ruleName), ("input", number c.input.size), ("line", number l.start.line),
    ("column", number l.start.column), ("end_line", number l.stop.line),
    ("end_column", number l.stop.column)]

/-- An argument; undefined if there is none. -/
def argument (args : List Value) (index : Nat) : Value := args.getD index .undefined

/-- What an action with some code does. -/
def body (code : String) (a : StockAction) : ActionBody Counts := fun c args s =>
  match a with
  | .text => (.ok (.string c.text), s)
  | .arg index => (.ok (argument args index), s)
  | .args => (.ok (.array args), s)
  | .const value => (.ok value, s)
  | .refuse r => (.error r, s)
  | .int =>
    match int64? c.text.toList with
    | some n => (.ok (.int n), s)
    | none => (.error .withdraw, s)
  | .sum => (.ok (.int ((args.filterMap Value.int?).foldl (· + ·) 0)), s)
  | .is index value => (.ok (.bool ((argument args index).same value)), s)
  | .maxLength n =>
    if c.text.utf8ByteSize ≤ n then (.ok (.string c.text), s) else (.error .withdraw, s)
  | .count =>
    let (n, s) := countUp code s
    (.ok (number n), s)
  | .where => (.ok (whereValue c), s)

/-- The table of some actions by code. -/
def table (actions : List (String × StockAction)) : ActionTable Counts :=
  actions.foldl (fun t (code, a) => t.insert code (a.body code)) {}

end StockAction

end PegMachine
