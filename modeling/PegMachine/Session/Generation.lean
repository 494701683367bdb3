import PegMachine.Emit.Source
import PegMachine.Generate.Code
import PegMachine.Session

/-!
# Generating passes

A checked and transformed grammar becomes a program, and the program source text if that is asked
for.
-/

namespace PegMachine

namespace Session

/-- Generate the program. Defects that only show now are reported; the program is kept all the
same. -/
def generateProgram (s : Session) : Verdict × Session :=
  match s.facts.generate s.grammar with
  | .error e => (.error (.internal e.message), s)
  | .ok c =>
    let s := c.pools.defects.foldl (fun s (message, location) => s.error message location) s
    let s := s.logs .debug (s!"compiled {s.grammar.rules.length} rule(s): "
      ++ s!"{c.pools.constants.size} constant(s), {c.pools.actions.size} action(s)")
    (.ok (), { s with program := some (c.program s.grammar s.facts s.options.trace) })

/-- Emit the source text of a parser, if that is asked for. -/
def emitSource (s : Session) : Verdict × Session :=
  if !s.options.output.wants .source then (.ok (), s)
  else
    match s.program with
    | none => (.error (.internal "source requested before bytecode generation"), s)
    | some program =>
      match Emit.source s.grammar s.facts program s.options.optimize with
      | .error e => (.error (.internal e.message), s)
      | .ok source =>
        let s := s.logs .debug s!"emitted {source.utf8ByteSize} bytes of source"
        (.ok (), { s with source := some source })

end Session

namespace Pass

/-- Generate the program. -/
def bytecode : Pass := ⟨"bytecode", Session.generateProgram⟩

/-- Emit the source text of a parser. -/
def source : Pass := ⟨"source", Session.emitSource⟩

end Pass

end PegMachine
