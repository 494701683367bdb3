import PegMachine.Consumption
import PegMachine.Grammar.Codec
import PegMachine.Grammar.Visit

/-!
# Facts

What passes learn about a grammar, in tables beside it: by node where each node stands, what it
refers to, what it is called and what it consumes; by rule who invokes it, whether a parse may
start from it, and whether it is memoized.

`Facts.link` fills the tables that follow from the structure of the grammar alone. It is run again
whenever rules or references change; what was analyzed before is kept.
-/

namespace PegMachine

/-- Whether a parse may start from a rule. -/
inductive Starter where
  /-- It may not. -/
  | no
  /-- It may if asked to. -/
  | yes
  /-- It does unless told otherwise. -/
  | default
  deriving DecidableEq, Repr, Inhabited

namespace Starter

/-- Whether a parse may start from the rule. -/
def isStarter (s : Starter) : Bool := s != .no

/-- The word for it. -/
def name : Starter → String
  | .no => "no"
  | .yes => "yes"
  | .default => "default"

end Starter

/-- What a node is called. -/
structure Description where
  /-- The name of a rule, a display name or a label. -/
  text : String
  /-- The depth of the node or rule that has this name. -/
  depth : Nat
  deriving DecidableEq, Repr, Inhabited

/-- What is known about a rule. -/
structure RuleFacts where
  /-- The names of the rules that refer to it, sorted. -/
  invokers : List String := []
  /-- Whether a parse may start from it. -/
  starter : Starter := .no
  /-- What it consumes. -/
  consumption : Option Consumption := none
  /-- Whether it is memoized. -/
  memoize : Bool := false
  deriving DecidableEq, Repr, Inhabited

/-- What is known about a grammar. -/
structure Facts where
  /-- The depth of each node; roots of rules are at depth two. -/
  depth : Array Nat := #[]
  /-- What each node hangs on. -/
  parent : Array (Option Parent) := #[]
  /-- The rule that each node belongs to. -/
  ruleOf : Array (Option Nat) := #[]
  /-- The rule that each reference refers to. -/
  targets : Array (Option Nat) := #[]
  /-- What each node is called. -/
  descriptions : Array (Option Description) := #[]
  /-- What each node consumes. -/
  consumption : Array (Option Consumption) := #[]
  /-- The positional name of each element of a sequence that has no label. -/
  autoLabels : Array (Option String) := #[]
  /-- What is known about the rules. -/
  rules : Array RuleFacts := #[]
  /-- The names of the rules that a parse may start from, the preferred one first. -/
  starters : List String := []
  /-- Whether any rule is memoized. -/
  memoize : Bool := false
  /-- Whether statistics are collected. -/
  statistics : Bool := false
  deriving DecidableEq, Repr, Inhabited

namespace Facts

/-! ## Questions -/

/-- What a node consumes; nothing if that is not known. -/
def consumptionOf (f : Facts) (id : NodeId) : Consumption := f.consumption[id]?.join.getD .nothing

/-- Whether a node may match without consuming anything. -/
def matchesEmpty (f : Facts) (id : NodeId) : Bool := (f.consumptionOf id).matchesEmpty

/-- The rule that a reference refers to. -/
def target? (f : Facts) (id : NodeId) : Option Nat := f.targets[id]?.join

/-- What a node is called. -/
def description? (f : Facts) (id : NodeId) : Option String :=
  f.descriptions[id]?.join.map (·.text)

/-- The rule that a node belongs to. -/
def owner? (f : Facts) (id : NodeId) : Option Nat := f.ruleOf[id]?.join

/-- The indices of the rules that a parse may start from. -/
def starterIndices (f : Facts) (g : Grammar) : List Nat := f.starters.filterMap g.ruleIndex?

/-! ## Linking -/

/-- The same table for another number of nodes. -/
def resize {α : Type} (table : Array (Option α)) (n : Nat) : Array (Option α) :=
  table.take n ++ Array.replicate (n - table.size) none

/-- Add a name to a sorted list without repetition. -/
def insertName (name : String) : List String → List String
  | [] => [name]
  | other :: rest =>
    if name < other then name :: other :: rest
    else if name = other then other :: rest
    else other :: insertName name rest

/-- The depth of a node that hangs on a parent. -/
def depthUnder (f : Facts) : Parent → Nat
  | .rule _ => 2
  | .node p => f.depth.getD p 0 + 1

/-- Enter a node of a rule into the tables. -/
def enterNode (rule : Nat) (id : NodeId) (parent : Parent) (f : Facts) : Facts :=
  { f with
    depth := f.depth.setIfInBounds id (f.depthUnder parent)
    parent := f.parent.setIfInBounds id (some parent)
    ruleOf := f.ruleOf.setIfInBounds id (some rule) }

/-- Enter what a node of a rule refers to. -/
def enterReference (g : Grammar) (invoker : String) (id : NodeId) (f : Facts) : Facts :=
  match g.shape id with
  | .ruleRef name =>
    match g.ruleIndex? name with
    | some target =>
      { f with
        targets := f.targets.setIfInBounds id (some target)
        rules := f.rules.modify target fun r =>
          { r with invokers := insertName invoker r.invokers } }
    | none => f
  | _ => f

/-- The walk that enters the nodes of a rule into the tables. -/
def linker (g : Grammar) (rule : Nat) (name : String) : Visitor Facts Unit where
  default := ()
  before := enterNode rule
  inside := fun _ walkChildren id _ f => ((), walkChildren (enterReference g name id f))

/-- Enter the nodes of all rules into the tables. -/
def linkRules (g : Grammar) (f : Facts) : Facts :=
  g.rules.zipIdx.foldl (fun f (r, index) => ((linker g index r.name).visitRule g index f).2) f

/-- Mark the rules that a parse may start from, the first of which has a place in their list. -/
def markStarters (g : Grammar) (place : Nat) : List String → Facts → Facts
  | [], f => f
  | name :: rest, f =>
    let f := match g.ruleIndex? name with
      | some index =>
        { f with rules := f.rules.modify index fun r =>
          { r with starter := if place = 0 then .default else .yes } }
      | none => f
    markStarters g (place + 1) rest f

/-- What is known about a rule before linking, given what was known before. -/
def ruleSeed (old : Option RuleFacts) : RuleFacts where
  consumption := old.bind (·.consumption)
  memoize := old.any (·.memoize)

/-- The tables before linking: structure unknown, earlier analyses kept. -/
def unlinked (f : Facts) (g : Grammar) (starters : List String) : Facts :=
  let n := g.nodes.size
  { f with
    depth := Array.replicate n 0
    parent := Array.replicate n none
    ruleOf := Array.replicate n none
    targets := Array.replicate n none
    descriptions := resize f.descriptions n
    consumption := resize f.consumption n
    autoLabels := resize f.autoLabels n
    rules := Array.ofFn fun i : Fin g.rules.length => ruleSeed f.rules[i.val]?
    starters }

/-- Fill the tables that follow from the structure of a grammar and its start rules. -/
def link (f : Facts) (g : Grammar) (starters : List String) : Facts :=
  markStarters g 0 starters (linkRules g (f.unlinked g starters))

/-- The facts about a grammar whose only start rule is the first rule. -/
def linked (g : Grammar) : Facts := link {} g (g.rules.head?.map (·.name)).toList

/-! ## Documents -/

end Facts

/-- The document of what is known about a rule. -/
def RuleFacts.toJson (r : RuleFacts) : Json :=
  .obj [("invokers", .arr (r.invokers.map .str)), ("starter", .str r.starter.name),
    ("consumption", .opt Consumption.toJson r.consumption), ("memoize", .bool r.memoize)]

/-- The document of a description. -/
def Description.toJson (d : Description) : Json :=
  .obj [("text", .str d.text), ("depth", .nat d.depth)]

namespace Facts

/-- The document of a table. -/
def tableJson {α : Type} (f : α → Json) (table : Array (Option α)) : Json :=
  .arr (table.toList.map (.opt f))

/-- The members of the document of facts. -/
def members (f : Facts) : List (String × Json) :=
  [("depth", .arr (f.depth.toList.map .nat)), ("parent", tableJson Parent.toJson f.parent),
   ("rule_of", tableJson .nat f.ruleOf), ("targets", tableJson .nat f.targets),
   ("descriptions", tableJson Description.toJson f.descriptions),
   ("consumption", tableJson Consumption.toJson f.consumption),
   ("auto_labels", tableJson .str f.autoLabels),
   ("rules", .arr (f.rules.toList.map RuleFacts.toJson)),
   ("starters", .arr (f.starters.map .str)), ("memoize", .bool f.memoize),
   ("statistics", .bool f.statistics)]

/-- The document of facts. -/
def toJson (f : Facts) : Json := .obj f.members

end Facts

/-- A grammar with all that is known about it. -/
structure AnnotatedGrammar where
  /-- The grammar. -/
  grammar : Grammar
  /-- What is known about it. -/
  facts : Facts
  deriving DecidableEq, Repr, Inhabited

/-- The text of an annotated grammar. -/
def AnnotatedGrammar.toText (a : AnnotatedGrammar) : String :=
  (Json.obj [("grammar", a.grammar.toJson), ("facts", a.facts.toJson)]).pretty

end PegMachine
