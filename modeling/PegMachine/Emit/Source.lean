import PegMachine.Emit.Routine
import PegMachine.Emit.Tables
import PegMachine.Facts
import PegMachine.Options
import PegMachine.Run.Routines

/-!
# Emitted parsers

The source text of a parser. A small one interprets the machine code in its tables; a fast one has
a function for every rule and leaves the machine code out.
-/

namespace PegMachine.Emit

open Layout

/-- A parser that interprets machine code. -/
def interpreterLayout (g : Grammar) (p : Program) : Layout :=
  commonPart g p "interpreter" true
    ++ runFunction
      [.plain "let state = ParserState::new(input, program, &mut actions, tracer, statistics);",
       .plain "interpreter::parse(state, start)"]

/-- The function that calls the function of a rule. -/
def dispatchFunction (rs : List Routine) : Layout :=
  braced "fn rule(state: &mut ParserState<'_>, index: usize) -> Result<Slot, ParseFailure>"
    (braced "match index"
      (rs.map (fun r => .plain (s!"{r.rule} => rule_{r.rule}(state),"))
        ++ [.plain "_ => Ok(Slot::Failed),"]))

/-- What the nodes of a rule are called, sorted, other than by the name of the rule. -/
def partNames (g : Grammar) (f : Facts) (rule : Nat) : List String :=
  let name := (g.rules[rule]?).elim "" (·.name)
  (((g.ruleNodes rule).filterMap f.description?).filter (· ≠ name)).foldl
    (fun names d => Facts.insertName d names) []

/-- A parser with a function for every rule. -/
def routineLayout (g : Grammar) (f : Facts) (p : Program) (rs : List Routine) : Layout :=
  commonPart g p "inline" false
    ++ runFunction
      [.plain ("let mut state = "
         ++ "ParserState::new(input, program, &mut actions, tracer, statistics);"),
       .plain "let result = rule(&mut state, start)?;",
       .plain "state.finish(result)"]
    ++ [blank] ++ dispatchFunction rs ++ [blank]
    ++ rs.flatMap fun r => ofRoutine p r (partNames g f r.rule)

/-- The source text of a parser. -/
def source (g : Grammar) (f : Facts) (p : Program) : Optimize → Except UnrollError String
  | .size => .ok (interpreterLayout g p).written
  | .speed => do
    let rs ← p.routines
    return (routineLayout g f p rs.toList).written

end PegMachine.Emit
