import PegMachine.Grammar.Basic

/-!
# Walking a grammar

A walk visits the annotations and then the nodes of a rule, each node before its children. A
visitor says what happens before a node, after it and instead of it; what it does not say is done
by the standard walk. The state of the walk is threaded through all of it.

Walks down a grammar are bounded by the number of its nodes, which no path exceeds unless a node
contains itself.
-/

namespace PegMachine

/-- What a node hangs on. -/
inductive Parent where
  /-- A rule, whose root the node is. -/
  | rule (index : Nat)
  /-- Another node. -/
  | node (id : NodeId)
  deriving DecidableEq, Repr, Inhabited

/-- The document of a parent. -/
def Parent.toJson : Parent → Json
  | .rule index => .obj [("type", .str "rule"), ("index", .nat index)]
  | .node id => .obj [("type", .str "node"), ("index", .nat id)]

/-- What a walk does, over a state `σ`, with results of a type `α`. -/
structure Visitor (σ α : Type) where
  /-- The result of a walk over nothing, and of the standard walk. -/
  default : α
  /-- Done before a node. -/
  before : NodeId → Parent → σ → σ := fun _ _ s => s
  /-- Done after a node; may replace its result. -/
  after : NodeId → Parent → α → σ → α × σ := fun _ _ a s => (a, s)
  /-- Done before an annotation of a rule. -/
  beforeAnnotation : Nat → Annotation → σ → σ := fun _ _ s => s
  /-- Done after an annotation of a rule. -/
  afterAnnotation : Nat → Annotation → σ → σ := fun _ _ s => s
  /-- Done for a node: given the visit of a child and the standard walk of the children, the
  result for the node. -/
  inside : (visitChild : NodeId → σ → α × σ) → (walkChildren : σ → σ) → NodeId → Parent → σ →
    α × σ := fun _ walkChildren _ _ s => (default, walkChildren s)

namespace Visitor

variable {σ α : Type}

/-- Visit a node and what is below it. -/
def visit (v : Visitor σ α) (g : Grammar) : Nat → NodeId → Parent → σ → α × σ
  | 0, _, _, s => (v.default, s)
  | depth + 1, id, parent, s =>
    let visitChild (child : NodeId) (s : σ) : α × σ := visit v g depth child (.node id) s
    let walkChildren (s : σ) : σ :=
      (g.children id).foldl (fun s child => (visitChild child s).2) s
    let s := v.before id parent s
    let (out, s) := v.inside visitChild walkChildren id parent s
    v.after id parent out s

/-- Visit the annotations of a rule and then its expression; an index past the end gives the
default result. -/
def visitRule (v : Visitor σ α) (g : Grammar) (rule : Nat) (s : σ) : α × σ :=
  match g.rules[rule]? with
  | none => (v.default, s)
  | some r =>
    let s := r.annotations.foldl
      (fun s a => v.afterAnnotation rule a (v.beforeAnnotation rule a s)) s
    v.visit g g.depthBound r.expression (.rule rule) s

/-- Visit every rule in order. -/
def visitGrammar (v : Visitor σ α) (g : Grammar) (s : σ) : σ :=
  (List.range g.rules.length).foldl (fun s rule => (v.visitRule g rule s).2) s

end Visitor

end PegMachine
