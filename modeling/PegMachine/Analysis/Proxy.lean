import PegMachine.Grammar.Basic

/-!
# Proxy rules

A rule that is nothing but a reference to another rule, perhaps under a label, is a proxy.
References to it can go straight to the other rule, and its label can go there too.
-/

namespace PegMachine

/-- A proxy rule. -/
structure Proxy where
  /-- The index of the proxy. -/
  rule : Nat
  /-- The name of the rule it stands for. -/
  target : String
  /-- The label on the reference. -/
  label : Option String
  deriving DecidableEq, Repr, Inhabited

namespace Grammar

/-- The label of a node and what is under it, if it is labeled; the node itself otherwise. -/
def underLabel (g : Grammar) (id : NodeId) : Option String × NodeId :=
  match g.shape id with
  | .labeled label e => (label, e)
  | _ => (none, id)

/-- A rule as a proxy, if it is one. -/
def proxy? (g : Grammar) (index : Nat) : Option Proxy :=
  match g.rules[index]? with
  | none => none
  | some r =>
    let (label, reference) := g.underLabel r.expression
    match g.shape reference with
    | .ruleRef name => if name = r.name then none else some ⟨index, name, label⟩
    | _ => none

/-- Whether a node refers to a rule. -/
def refersTo (name : String) (n : Node) : Bool :=
  match n.shape with
  | .ruleRef other => other == name
  | _ => false

/-- The references to a rule. -/
def references (g : Grammar) (name : String) : List NodeId :=
  (List.range g.nodes.size).filter fun id => refersTo name (g.node id)

/-- Let all references to one rule refer to another. -/
def redirect (g : Grammar) (source target : String) : Grammar :=
  { g with nodes := g.nodes.map fun n =>
      if refersTo source n then { n with shape := .ruleRef target } else n }

/-- Replace the root of a rule. -/
def setRoot (g : Grammar) (index : Nat) (root : NodeId) : Grammar :=
  { g with rules := g.rules.modify index fun r => { r with expression := root } }

/-- Put a label on the root of a rule, unless it carries one. -/
def labelRoot (g : Grammar) (index : Nat) (label : String) : Option Grammar :=
  match g.rules[index]? with
  | none => none
  | some r =>
    match g.shape r.expression with
    | .labeled (some _) _ => none
    | .labeled none e => some (g.setShape r.expression (.labeled (some label) e))
    | _ =>
      let (root, g) := g.addNode (.labeled (some label) r.expression) (g.node r.expression).location
      some (g.setRoot index root)

end Grammar

end PegMachine
