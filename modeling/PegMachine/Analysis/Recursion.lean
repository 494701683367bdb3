import PegMachine.Analysis.Reach

/-!
# Endless recursion

A rule that can come back to itself without consuming anything never ends, nor does a repetition
of something that may consume nothing. `leftRecursion` finds the references that close such a
circle of rules, `endlessLoops` the repetitions.
-/

namespace PegMachine

/-- A reference and the rule it refers to. -/
structure Call where
  /-- The node of the reference. -/
  node : NodeId
  /-- The rule. -/
  target : Nat
  deriving DecidableEq, Repr, Inhabited

namespace Facts

/-- The calls of the elements of a sequence that can be reached without consuming anything. -/
def leadingCalls (f : Facts) (calls : NodeId → List Call) : List NodeId → List Call
  | [] => []
  | e :: rest => calls e ++ if f.matchesEmpty e then leadingCalls f calls rest else []

/-- The calls below a node that can be reached without consuming anything, given a bound on the
depth below it. -/
def leftCalls (f : Facts) (g : Grammar) : Nat → NodeId → List Call
  | 0, _ => []
  | depth + 1, id =>
    let calls := leftCalls f g depth
    match g.shape id with
    | .sequence elements => f.leadingCalls calls elements
    | .range _ _ e delimiter => f.leadingCalls calls (e :: delimiter.toList)
    | .ruleRef _ => ((f.target? id).map (⟨id, ·⟩)).toList
    | s => s.children.flatMap calls

/-- The calls of a rule that can be reached without consuming anything. -/
def leftCallsOfRule (f : Facts) (g : Grammar) (r : Rule) : List Call :=
  f.leftCalls g g.depthBound r.expression

/-- The references that lead a rule back to itself without consuming anything, by their names, in
the order of the rules. -/
def leftRecursion (f : Facts) (g : Grammar) : List (String × Option Location) :=
  let calls := (g.rules.map (f.leftCallsOfRule g)).toArray
  let edges (rule : Nat) : List Nat := (calls.getD rule []).map (·.target)
  let closures := (List.range g.rules.length).map
    fun rule => Reach.closure edges g.rules.length (edges rule)
  let reaches := closures.toArray
  (calls.toList.zipIdx.flatMap fun (own, rule) =>
    own.filter fun c => c.target == rule || (reaches.getD c.target #[]).getD rule false).filterMap
    fun c =>
      match g.node c.node with
      | ⟨.ruleRef name, location⟩ => some (name, location)
      | _ => none

/-- Whether a node repeats something that may consume nothing without an end. -/
def loopsForever (f : Facts) (g : Grammar) (id : NodeId) : Bool :=
  match g.shape id with
  | .zeroOrMore e => f.matchesEmpty e
  | .oneOrMore e => f.matchesEmpty e
  | .range _ none e delimiter => f.matchesEmpty e && delimiter.all f.matchesEmpty
  | _ => false

/-- The repetitions that never end, in the order of the rules. -/
def endlessLoops (f : Facts) (g : Grammar) : List NodeId :=
  (List.range g.rules.length).flatMap fun rule => (g.ruleNodes rule).filter (f.loopsForever g)

end Facts

end PegMachine
