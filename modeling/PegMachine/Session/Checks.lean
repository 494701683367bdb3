import PegMachine.Analysis.Consumption
import PegMachine.Analysis.Labels
import PegMachine.Analysis.Recursion
import PegMachine.Session

/-!
# Checking passes

The defects that a grammar can have, each reported where it is. Rules that no start rule needs are
dropped along the way, so that what follows need not look at them.
-/

namespace PegMachine

namespace Session

/-- A place as messages about rules call it. -/
def placeName : Option Location → String
  | some l => l.describe
  | none => "(...unspecified location...)"

/-- The problem of a rule whose name was used before. -/
def duplicateProblem (strict : Bool) (first r : Rule) : Problem :=
  if strict then
    { severity := .error
      message := "Rule \"" ++ r.name ++ "\" is defined at least twice."
      location := r.location
      notes := [⟨"First definition", first.location⟩, ⟨"Duplicate definition", r.location⟩] }
  else
    { severity := .warning
      message := "Rule \"" ++ r.name ++ "\" redefined; previously defined in "
        ++ placeName first.location ++ "."
      location := r.location }

/-- Report rules whose names were used before. -/
def checkDuplicateRules (s : Session) : Session :=
  s.grammar.rules.zipIdx.foldl
    (fun s (r, index) =>
      match s.grammar.rules.findIdx? (·.name = r.name), s.grammar.rule? r.name with
      | some i, some first =>
        if i < index then
          s.diagnose (·.report (duplicateProblem s.options.reportDuplicateRules first r))
        else s
      | _, _ => s) s

/-- A reference to a rule that is not known. -/
def missingReference? (s : Session) (id : NodeId) : Option (String × Option Location) :=
  match s.grammar.node id with
  | ⟨.ruleRef name, location⟩ =>
    if (s.facts.target? id).isNone then some (name, location) else none
  | _ => none

/-- Report references to rules that do not exist. -/
def checkMissingRules (s : Session) : Session :=
  let ids := (List.range s.grammar.rules.length).flatMap s.grammar.ruleNodes
  (ids.filterMap s.missingReference?).foldl
    (fun s (name, location) =>
      s.error ("Referenced rule \"" ++ name ++ "\" does not exist.") location) s

/-- Drop the rules that no start rule needs. -/
def dropUnusedRules (s : Session) : Session :=
  let used := s.facts.reachable s.grammar
  let unused := s.grammar.rules.zipIdx.filter fun (_, i) => !used.getD i false
  let s := unused.foldl
    (fun s (r, _) => s.warning ("Rule \"" ++ r.name ++ "\" is not used.") r.location) s
  if unused.isEmpty then s
  else (s.logs .debug s!"dropping {unused.length} unused rule(s)").removeRules (unused.map (·.2))

/-- Find out what every node and every rule consumes. -/
def analyzeConsumption (s : Session) : Session :=
  { s with facts := s.facts.analyze s.grammar }

/-- Report references that lead back to their rule without consuming anything. -/
def checkLeftRecursion (s : Session) : Session :=
  (s.facts.leftRecursion s.grammar).foldl
    (fun s (name, location) =>
      s.error ("Left recursion detected for rule \"" ++ name ++ "\".") location) s

/-- Report repetitions that never end. -/
def checkEndlessLoops (s : Session) : Session :=
  (s.facts.endlessLoops s.grammar).foldl
    (fun s id =>
      s.error ("Infinite loop detected in rule \"" ++ s.ownerName id ++ "\".")
        (s.grammar.node id).location) s

/-- Report labels that are bound twice in one scope, if that is asked for. -/
def checkLabels (s : Session) : Session :=
  if s.options.reportDuplicateLabels then
    s.grammar.duplicateLabels.foldl
      (fun s d =>
        s.error ("Duplicate label \"" ++ d.label ++ "\" detected for rule \"" ++ s.ruleName d.rule
          ++ "\".") d.location) s
  else s

end Session

namespace Pass

/-- Report rules whose names were used before. -/
def duplicateRules : Pass := ofFunction "duplicate_rules" Session.checkDuplicateRules

/-- Report references to rules that do not exist. -/
def missingRules : Pass := ofFunction "missing_rules" Session.checkMissingRules

/-- Drop the rules that no start rule needs. -/
def unusedRules : Pass := ofFunction "unused_rules" Session.dropUnusedRules

/-- Find out what every node and every rule consumes. -/
def consumption : Pass := ofFunction "consumption" Session.analyzeConsumption

/-- Report references that lead back to their rule without consuming anything. -/
def leftRecursion : Pass := ofFunction "left_recursion" Session.checkLeftRecursion

/-- Report repetitions that never end. -/
def infiniteLoops : Pass := ofFunction "infinite_loops" Session.checkEndlessLoops

/-- Report labels that are bound twice in one scope. -/
def duplicateLabels : Pass := ofFunction "duplicate_labels" Session.checkLabels

end Pass

end PegMachine
