import PegMachine.Emit.Layout
import PegMachine.Emit.Literal
import PegMachine.Grammar.Basic

/-!
# The common part of emitted parsers

Every emitted parser is a Rust module that starts with a heading and the initializer of the
grammar. It holds the tables of the program, a function for each action, and the functions that
its users call.
-/

namespace PegMachine.Emit

open Layout

/-- The version that emitted parsers name. -/
def version : String := "0.1.0"

/-- The initializer, unless there is nothing in it. -/
def initializer (g : Grammar) : Layout :=
  match g.initializer with
  | none => []
  | some code => if code.toList.all Unicode.isWhiteSpace then [] else ofText code ++ [blank]

/-- The lines before the tables. -/
def heading (g : Grammar) (backend : String) : Layout :=
  [.plain ("//! Parser generated by pegc " ++ version ++ " (" ++ backend
     ++ " backend). Do not edit."),
   blank,
   .plain ("#![allow(dead_code, unused_mut, unused_variables, unused_assignments, clippy::all)]"),
   blank,
   .plain "use pegc::runtime::*;",
   .plain "use std::sync::OnceLock;",
   blank] ++ initializer g

/-- A table of literals. -/
def table (items : List String) : Layout :=
  enclosed "vec![" (items.map fun item => .plain (item ++ ",")) "],"

/-- The parts of the program, one after the other. -/
def programParts (p : Program) (withCode : Bool) : Layout :=
  table (p.rules.toList.map (ofRule withCode)) ++ table (p.constants.toList.map ofConstant)
    ++ table (p.actions.toList.map ofAction)
    ++ [.plain (vector (p.starters.map toString) ++ ","), .plain (toString p.defaultStart ++ ","),
        .plain (toString p.memoize ++ ","), .plain (toString p.trace ++ ","),
        .plain (toString p.statistics ++ ",")]

/-- The function that gives the program. -/
def programFunction (p : Program) (withCode : Bool) : Layout :=
  [.plain "/// The compiled program"]
    ++ braced "pub fn program() -> &'static Program"
      ([.plain "static PROGRAM: OnceLock<Program> = OnceLock::new();"]
        ++ enclosed "PROGRAM.get_or_init(|| \x7b"
          (enclosed "Program::new(" (programParts p withCode) ")") "\x7d)")
    ++ [blank]

/-! ## Actions -/

/-- The case that calls the function of an action. -/
def actionCase (index : Nat) (a : Program.Action) : Line :=
  let argument (i : Nat) : String := s!", args.get({i}).unwrap_or(&Value::Undefined)"
  let arguments := (List.range a.params.length).map argument
  .plain (s!"{index} => action_{index}(ctx" ++ String.join arguments ++ "),")

/-- The parameters that the function of an action has for labels. -/
def actionParams (a : Program.Action) : List String := a.params.map identifier

/-- The function of an action. -/
def actionFunction (index : Nat) (a : Program.Action) : Layout :=
  let params := (actionParams a).map fun name => ", " ++ name ++ ": &Value"
  [blank] ++ braced (s!"fn action_{index}(ctx: &ActionContext<'_>" ++ String.join params
    ++ ") -> ActionResult") (ofText a.code)

/-- The handler that calls the functions of the actions. -/
def actionHandler (actions : List Program.Action) : Layout :=
  braced "impl ActionHandler for Actions"
    (braced ("fn call(&mut self, index: usize, _def: &ActionDef, ctx: &ActionContext<'_>, "
        ++ "args: &[Value]) -> ActionResult")
      (braced "match index"
        (actions.zipIdx.map (fun (a, index) => actionCase index a)
          ++ [.plain "_ => Err(ActionError::Unbound),"])))

/-- The handler and the functions of the actions. -/
def actionParts (actions : List Program.Action) : Layout :=
  [.plain "/// Runs the grammar's actions, predicates and code terminals",
   .plain "#[derive(Debug, Clone, Copy, Default)]",
   .plain "pub struct Actions;",
   blank]
    ++ actionHandler actions
    ++ actions.zipIdx.flatMap (fun (a, index) => actionFunction index a)
    ++ [blank]

/-! ## Functions for users -/

/-- The functions that users call. -/
def entryPoints : Layout :=
  [.plain "/// Parse `input` from the requested or default start rule"]
    ++ braced ("pub fn parse(input: &str, options: ParseOptions<'_>) "
      ++ "-> Result<Value, ParseFailure>") [.plain "run(input, options, None)"]
    ++ [blank, .plain "/// Parse `input` and return the run-time statistics of this parse"]
    ++ braced ("pub fn parse_with_statistics(input: &str, options: ParseOptions<'_>) "
      ++ "-> (Result<Value, ParseFailure>, Statistics)")
      [.plain "let program = program();",
       .plain ("let mut statistics = Statistics::new(program.rules.iter()"
         ++ ".map(|r| (r.name.as_str(), r.memoize && program.memoize)));"),
       .plain "let result = run(input, options, Some(&mut statistics));",
       .plain "(result, statistics)"]
    ++ [blank]

/-- The function behind them, given what it does with the state of the parser. -/
def runFunction (body : Layout) : Layout :=
  braced ("fn run(input: &str, options: ParseOptions<'_>, "
    ++ "statistics: Option<&mut Statistics>) -> Result<Value, ParseFailure>")
    ([.plain "let program = program();",
      .plain "let start = program.start_index(options.start_rule)?;",
      .plain "let mut actions = Actions;",
      .plain "let tracer = options.tracer.map(|t| t as &mut dyn Tracer);"] ++ body)

/-- The part of an emitted parser that does not depend on how it runs. -/
def commonPart (g : Grammar) (p : Program) (backend : String) (withCode : Bool) : Layout :=
  heading g backend ++ programFunction p withCode ++ actionParts p.actions.toList ++ entryPoints

end PegMachine.Emit
