import PegMachine.Failure

/-!
# Runs

A run goes from state to state. It may give a result, it may end the parse, and it may take
forever; what takes forever is cut off by fuel, and then there is no outcome at all.
-/

namespace PegMachine

/-- How an operation that may end the parse goes out. -/
abbrev Outcome (α : Type) := Except ParseFailure α

/-- A run over states of a type `S`. -/
abbrev Run (S : Type) := ExceptT ParseFailure (StateT S Option)

namespace Run

variable {S α : Type}

/-- The run that takes forever. -/
def forever : Run S α := fun _ => none

/-- Repeat a step for as long as a test holds, which takes forever after a number of rounds. -/
def repeatWhile (test : α → S → Bool) (step : α → Run S α) : Nat → α → Run S α
  | 0, _ => forever
  | rounds + 1, a => fun s =>
    if test a s then
      match step a s with
      | some (.ok b, s) => repeatWhile test step rounds b s
      | some (.error e, s) => some (.error e, s)
      | none => none
    else some (.ok a, s)

end Run

end PegMachine
