import PegMachine.Diagnostics
import PegMachine.Facts
import PegMachine.Options
import PegMachine.Program
import PegMachine.Text.Quoted

/-!
# Sessions

The state of one compilation: the grammar, what is known about it, the options, the diagnostics,
and what was generated. A pass takes a session to a session and either goes well or ends the
compilation.
-/

namespace PegMachine

/-- The state of one compilation. -/
structure Session where
  /-- The grammar. -/
  grammar : Grammar
  /-- What is known about the grammar. -/
  facts : Facts := {}
  /-- What is asked for. -/
  options : Options := {}
  /-- What is said about the compilation. -/
  diagnostics : Diagnostics := {}
  /-- The compiled program, once there is one. -/
  program : Option Program := none
  /-- The source text of a parser, once there is one. -/
  source : Option String := none
  deriving DecidableEq, Repr, Inhabited

/-- Whether a pass went well. -/
abbrev Verdict := Except CompileError Unit

namespace Session

/-- The session in which a grammar is compiled for some listeners. -/
def start (g : Grammar) (options : Options) (listeners : Nat) : Session where
  grammar := g
  options := options
  diagnostics := { verbose := options.verbose, listeners := List.replicate listeners [] }

/-- Change the diagnostics. -/
def diagnose (s : Session) (f : Diagnostics → Diagnostics) : Session :=
  { s with diagnostics := f s.diagnostics }

/-- Report an error. -/
def error (s : Session) (message : String) (location : Option Location) : Session :=
  s.diagnose (·.error message location)

/-- Report a warning. -/
def warning (s : Session) (message : String) (location : Option Location) : Session :=
  s.diagnose (·.warning message location)

/-- Report something worth knowing. -/
def info (s : Session) (message : String) (location : Option Location) : Session :=
  s.diagnose (·.info message location)

/-- Add an entry to the log. -/
def logs (s : Session) (level : LogLevel) (text : String) : Session :=
  s.diagnose (·.logs level text)

/-- Link again after rules or references changed. -/
def relink (s : Session) : Session :=
  { s with facts := s.facts.link s.grammar s.facts.starters }

/-- Remove the rules with some indices and link again. -/
def removeRules (s : Session) (indices : List Nat) : Session :=
  let kept := s.facts.rules.toList.zipIdx.filter fun r =>
    !(indices.contains r.2 && r.2 < s.grammar.rules.length)
  let facts := { s.facts with rules := (kept.map (·.1)).toArray }
  { s with grammar := s.grammar.removeRules indices, facts }.relink

/-- The name of a rule; empty if there is no such rule. -/
def ruleName (s : Session) (index : Nat) : String := (s.grammar.rules[index]?).elim "" (·.name)

/-- The name of the rule that a node belongs to; empty if there is none. -/
def ownerName (s : Session) (id : NodeId) : String := (s.facts.owner? id).elim "" s.ruleName

/-- A session as it is shown to a person. -/
def describe (s : Session) : String :=
  s!"Session \x7b rules: {s.grammar.rules.length}, nodes: {s.grammar.nodes.size}, diagnostics: "
    ++ s.diagnostics.describe ++ " \x7d"

end Session

/-- A step of a compilation. -/
structure Pass where
  /-- The name of the pass. -/
  name : String
  /-- What it does. -/
  run : Session → Verdict × Session

namespace Pass

/-- A pass that always goes well. -/
def ofFunction (name : String) (f : Session → Session) : Pass where
  name := name
  run := fun s => (.ok (), f s)

/-- A pass as it is shown to a person. -/
def describe (p : Pass) : String := "Pass \x7b name: " ++ Text.quote p.name ++ " \x7d"

end Pass

end PegMachine
