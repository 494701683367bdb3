import PegMachine.Analysis.Descriptions
import PegMachine.Analysis.Starters
import PegMachine.Session

/-!
# Preparing passes

What has to be known before a grammar can be checked: its start rules and its structure, whether
statistics are asked for, and what its nodes are called.
-/

namespace PegMachine

namespace Session

/-- Warn about requested start rules that the grammar does not have. -/
def reportStarters (s : Session) (r : StarterResolution) : Session :=
  let s := if r.unmatched.isEmpty then s else
    s.warning ("These rules specified in the options as starters are not defined in this grammar: "
      ++ ", ".intercalate r.unmatched) none
  match r.fellBack, s.grammar.rules.head? with
  | true, some first =>
    s.warning ("No valid starter rule has been defined. Assuming the first rule (" ++ first.name
      ++ ") is the only starter.") first.location
  | _, _ => s

/-- Find the start rules and link. A grammar without rules ends the compilation. -/
def linkGrammar (s : Session) : Verdict × Session :=
  if s.grammar.rules.isEmpty then
    let (e, d) := s.diagnostics.fatal "The grammar must contain at least one rule." none
    (.error (.grammar e), { s with diagnostics := d })
  else
    let r := s.options.startRules.resolve s.grammar
    let s := s.reportStarters r
    (.ok (), { s with facts := s.facts.link s.grammar r.starters })

/-- Whether a rule asks for statistics. -/
def asksForStatistics (r : Rule) : Bool := r.annotations.any (·.name == "collect_statistics")

/-- Decide whether statistics are collected. -/
def decideStatistics (s : Session) : Session :=
  let wanted := s.options.statistics || s.grammar.rules.any asksForStatistics
  { s with facts := { s.facts with statistics := wanted } }

/-- Describe all nodes. -/
def describeNodes (s : Session) : Session := { s with facts := s.facts.describe s.grammar }

end Session

namespace Pass

/-- Find the start rules and link. -/
def link : Pass := ⟨"link", Session.linkGrammar⟩

/-- Decide whether statistics are collected. -/
def statistics : Pass := ofFunction "statistics" Session.decideStatistics

/-- Describe all nodes. -/
def descriptions : Pass := ofFunction "descriptions" Session.describeNodes

end Pass

end PegMachine
