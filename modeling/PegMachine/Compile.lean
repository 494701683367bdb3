import PegMachine.Parser
import PegMachine.Pipeline

/-!
# Compiling

From a grammar and options to whatever was asked for: a parser, source text, or the grammar with
all that was found out about it.
-/

namespace PegMachine

/-- What a compilation gives. -/
structure Compiled where
  /-- The parser, if it was asked for. -/
  parser : Option Parser
  /-- The source text of a parser, if it was asked for. -/
  source : Option String
  /-- The grammar after all passes, if it was asked for. -/
  ast : Option AnnotatedGrammar
  /-- The problems that were found, none of which is an error. -/
  problems : List Problem

namespace Session

/-- The parser for the program of a session, if it is asked for. -/
def parser? (s : Session) : Except CompileError (Option Parser) :=
  if !s.options.output.wants .parser then .ok none
  else
    match s.program with
    | none => .error (.internal "no program was generated")
    | some program =>
      match s.options.optimize with
      | .size => .ok (some (.interpreted program))
      | .speed =>
        match Parser.unrolled program with
        | .ok p => .ok (some p)
        | .error e => .error (.internal e.message)

/-- What a session that went through the pipeline gives. -/
def result (s : Session) : Except CompileError Compiled := do
  let parser ← s.parser?
  return {
    parser
    source := s.source
    ast := if s.options.output.wants .ast then some ⟨s.grammar, s.facts⟩ else none
    problems := s.diagnostics.problems }

end Session

/-- What is said at the start of a compilation. -/
def greeting (g : Grammar) (options : Options) : String :=
  let goal := match options.optimize with
    | .speed => "Speed"
    | .size => "Size"
  s!"compiling {g.rules.length} rule(s), {g.nodes.size} node(s), optimize=" ++ goal

/-- Compile a grammar for some listeners. The session tells what was said along the way. -/
def compile (g : Grammar) (options : Options) (listeners : Nat) :
    Except CompileError Compiled × Session :=
  let s := (Session.start g options listeners).logs .info (greeting g options)
  match Pipeline.standard.run s with
  | (.error e, s) => (.error e, s)
  | (.ok (), s) => (s.result, s)

end PegMachine
