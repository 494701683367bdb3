import PegMachine.Facts

/-!
# Descriptions

The name of a rule, a display name and a label describe not only their own node but the whole
chain of only children below it. A description from deeper down wins over one from further up, and
the name of a rule goes no further than a display name.
-/

namespace PegMachine

namespace Shape

/-- The next node of a chain of descriptions: the only child, or what a range repeats. -/
def chainChild? : Shape → Option NodeId
  | .range _ _ e _ => some e
  | s => s.singleChild?

/-- Whether the shape gives its node a display name. -/
def isNamed : Shape → Bool
  | .named .. => true
  | _ => false

end Shape

namespace Facts

/-- Describe the chain from a node on, given a bound on its length. The chain ends at a
description from as deep or deeper, and before a display name if asked to. -/
def describeChain (g : Grammar) (d : Description) (stopAtNamed : Bool) :
    Nat → NodeId → Array (Option Description) → Array (Option Description)
  | 0, _, table => table
  | n + 1, id, table =>
    if stopAtNamed && (g.shape id).isNamed then table
    else if table[id]?.join.any (d.depth ≤ ·.depth) then table
    else
      let table := table.setIfInBounds id (some d)
      match (g.shape id).chainChild? with
      | some next => describeChain g d stopAtNamed n next table
      | none => table

/-- Describe the chain below a node that has a display name or a label. -/
def describeNode (f : Facts) (g : Grammar) (table : Array (Option Description)) (id : NodeId) :
    Array (Option Description) :=
  let depth := f.depth.getD id 0
  match g.shape id with
  | .named name _ => describeChain g ⟨name, depth⟩ false g.depthBound id table
  | .labeled (some label) _ => describeChain g ⟨label, depth⟩ false g.depthBound id table
  | _ => table

/-- Describe the nodes of a rule. -/
def describeRule (f : Facts) (g : Grammar) (table : Array (Option Description))
    (rule : Rule × Nat) : Array (Option Description) :=
  let (r, index) := rule
  let table := describeChain g ⟨r.name, 1⟩ true g.depthBound r.expression table
  (g.ruleNodes index).foldl (f.describeNode g) table

/-- Describe the nodes of all rules. -/
def describe (f : Facts) (g : Grammar) : Facts :=
  { f with descriptions := g.rules.zipIdx.foldl (f.describeRule g) f.descriptions }

end Facts

end PegMachine
