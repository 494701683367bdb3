import PegMachine.Grammar.Basic
import PegMachine.Options

/-!
# Start rules

Which of the requested start rules a grammar has. If it has none of them, its first rule takes
their place.
-/

namespace PegMachine

/-- What became of the requested start rules. -/
structure StarterResolution where
  /-- The names of the start rules, the preferred one first, each once. -/
  starters : List String
  /-- The requested names that no rule has. -/
  unmatched : List String
  /-- Whether the first rule took the place of all that was requested. -/
  fellBack : Bool
  deriving DecidableEq, Repr, Inhabited

namespace StartRules

/-- The names that are requested of a grammar. -/
def names (g : Grammar) : StartRules → List String
  | .first => (g.rules.head?.map (·.name)).toList
  | .all => g.rules.map (·.name)
  | .listed names => names

/-- The names without repetition, in the order in which they first occur. -/
def distinct (names : List String) : List String :=
  names.foldl (fun seen name => if seen.contains name then seen else seen ++ [name]) []

/-- Find the requested start rules in a grammar. -/
def resolve (g : Grammar) (requested : StartRules) : StarterResolution :=
  let names := requested.names g
  let found := distinct (names.filter fun name => (g.ruleIndex? name).isSome)
  let unmatched := names.filter fun name => (g.ruleIndex? name).isNone
  if found.isEmpty then ⟨(g.rules.head?.map (·.name)).toList, unmatched, true⟩
  else ⟨found, unmatched, false⟩

end StartRules

end PegMachine
