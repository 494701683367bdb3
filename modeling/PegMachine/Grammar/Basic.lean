import PegMachine.Location

/-!
# Grammars

A grammar is a list of rules over an arena of expression nodes. Nodes refer to their children by
number, so that passes can keep their facts in tables beside the grammar. In a grammar built from
nested expressions children come before their parents.
-/

namespace PegMachine

/-- The number of a node in the arena of its grammar. -/
abbrev NodeId := Nat

/-- One part of a character class. -/
inductive ClassPart where
  /-- A single character. -/
  | char (c : Char)
  /-- All characters from one to another. -/
  | range (first last : Char)
  deriving DecidableEq, Repr, Inhabited

/-- What a node is. -/
inductive Shape where
  /-- An expression that failures report under a name. -/
  | named (name : String) (expression : NodeId)
  /-- Ordered choice. -/
  | choice (alternatives : List NodeId)
  /-- An expression whose value is computed by code. -/
  | action (expression : NodeId) (code : String)
  /-- Expressions one after the other. -/
  | sequence (elements : List NodeId)
  /-- An expression with a label; the label may have moved elsewhere. -/
  | labeled (label : Option String) (expression : NodeId)
  /-- The matched text instead of the value. -/
  | text (expression : NodeId)
  /-- Look ahead for a match. -/
  | simpleAnd (expression : NodeId)
  /-- Look ahead for the absence of a match. -/
  | simpleNot (expression : NodeId)
  /-- A match or nothing. -/
  | optional (expression : NodeId)
  /-- Any number of matches. -/
  | zeroOrMore (expression : NodeId)
  /-- At least one match. -/
  | oneOrMore (expression : NodeId)
  /-- A bounded number of matches, perhaps with something between them. -/
  | range (min : UInt32) (max : Option UInt32) (expression : NodeId) (delimiter : Option NodeId)
  /-- Code that has to answer true. -/
  | semanticAnd (code : String)
  /-- Code that has to answer false. -/
  | semanticNot (code : String)
  /-- A rule, by name. -/
  | ruleRef (name : String)
  /-- A literal text. -/
  | literal (value : String) (ignoreCase : Bool)
  /-- A character class. -/
  | charClass (parts : List ClassPart) (inverted ignoreCase : Bool) (rawText : String)
  /-- A regular expression. -/
  | regex (value : String) (ignoreCase multiLine : Bool) (rawText : String)
  /-- Any character. -/
  | any
  /-- The empty match. -/
  | epsilon
  /-- Code that gives a value. -/
  | code (code : String)
  deriving DecidableEq, Repr, Inhabited

namespace Shape

/-- The word for a shape. -/
def tag : Shape → String
  | .named .. => "named"
  | .choice .. => "choice"
  | .action .. => "action"
  | .sequence .. => "sequence"
  | .labeled .. => "labeled"
  | .text .. => "text"
  | .simpleAnd .. => "simple_and"
  | .simpleNot .. => "simple_not"
  | .optional .. => "optional"
  | .zeroOrMore .. => "zero_or_more"
  | .oneOrMore .. => "one_or_more"
  | .range .. => "range"
  | .semanticAnd .. => "semantic_and"
  | .semanticNot .. => "semantic_not"
  | .ruleRef .. => "rule_ref"
  | .literal .. => "literal"
  | .charClass .. => "class"
  | .regex .. => "regex"
  | .any => "any"
  | .epsilon => "epsilon"
  | .code .. => "code"

/-- The words for all shapes, in the order of the constructors. -/
def tags : List String :=
  ["named", "choice", "action", "sequence", "labeled", "text", "simple_and", "simple_not",
   "optional", "zero_or_more", "one_or_more", "range", "semantic_and", "semantic_not",
   "rule_ref", "literal", "class", "regex", "any", "epsilon", "code"]

/-- The only child of a shape that wraps one expression. -/
def singleChild? : Shape → Option NodeId
  | .named _ e => some e
  | .action e _ => some e
  | .labeled _ e => some e
  | .text e => some e
  | .simpleAnd e => some e
  | .simpleNot e => some e
  | .optional e => some e
  | .zeroOrMore e => some e
  | .oneOrMore e => some e
  | _ => none

/-- The children, in the order in which they are tried. -/
def children : Shape → List NodeId
  | .choice alternatives => alternatives
  | .sequence elements => elements
  | .range _ _ e delimiter => e :: delimiter.toList
  | s => s.singleChild?.toList

end Shape

/-- An expression node. -/
structure Node where
  /-- What the node is. -/
  shape : Shape
  /-- Where it stands in the text of the grammar. -/
  location : Option Location := none
  deriving DecidableEq, Repr, Inhabited

/-- A parameter of an annotation. -/
inductive Param where
  /-- A bare word. -/
  | keyword (word : String)
  /-- A quoted text. -/
  | string (text : String)
  /-- A whole number. -/
  | number (n : Int64)
  /-- A range, open on either side. -/
  | range (min max : Option Int64)
  deriving DecidableEq, Repr, Inhabited

/-- The bare word, if the parameter is one. -/
def Param.keyword? : Param → Option String
  | .keyword word => some word
  | _ => none

/-- An annotation of a rule. -/
structure Annotation where
  /-- The name. -/
  name : String
  /-- The parameters. -/
  params : List Param := []
  /-- Where it stands in the text of the grammar. -/
  location : Option Location := none
  deriving DecidableEq, Repr, Inhabited

/-- A rule. -/
structure Rule where
  /-- The name. -/
  name : String
  /-- The root of its expression. -/
  expression : NodeId
  /-- The annotations. -/
  annotations : List Annotation := []
  /-- Where it stands in the text of the grammar. -/
  location : Option Location := none
  deriving DecidableEq, Repr, Inhabited

/-- A grammar. -/
structure Grammar where
  /-- The rules in the order of their declaration. -/
  rules : List Rule := []
  /-- The expression nodes. -/
  nodes : Array Node := #[]
  /-- Code to put before a generated parser. -/
  initializer : Option String := none
  deriving DecidableEq, Repr, Inhabited

namespace Grammar

/-- The node with a number. -/
def node (g : Grammar) (id : NodeId) : Node := g.nodes.getD id ⟨.epsilon, none⟩

/-- What the node with a number is. -/
def shape (g : Grammar) (id : NodeId) : Shape := (g.node id).shape

/-- The children of a node. -/
def children (g : Grammar) (id : NodeId) : List NodeId := (g.shape id).children

/-- Replace what a node is. -/
def setShape (g : Grammar) (id : NodeId) (s : Shape) : Grammar :=
  { g with nodes := g.nodes.modify id fun n => { n with shape := s } }

/-- Remove the rules with some indices. -/
def removeRules (g : Grammar) (indices : List Nat) : Grammar :=
  { g with rules := (g.rules.zipIdx.filter fun (_, i) => !indices.contains i).map (·.1) }

/-- Add a node. -/
def addNode (g : Grammar) (s : Shape) (location : Option Location) : NodeId × Grammar :=
  (g.nodes.size, { g with nodes := g.nodes.push ⟨s, location⟩ })

/-- The index of the first rule with a name. -/
def ruleIndex? (g : Grammar) (name : String) : Option Nat :=
  g.rules.findIdx? (·.name = name)

/-- The first rule with a name. -/
def rule? (g : Grammar) (name : String) : Option Rule := g.rules.find? (·.name = name)

/-- A number no walk down from a node takes more steps than, unless nodes contain themselves. -/
def depthBound (g : Grammar) : Nat := g.nodes.size + 1

/-- The number of nodes that a walk from a node comes to, given a bound on the depth below it. A
node that can be reached in several ways is counted for each of them. -/
def walkSize (g : Grammar) : Nat → NodeId → Nat
  | 0, _ => 0
  | depth + 1, id => (g.children id).foldl (fun n child => n + walkSize g depth child) 1

/-- Visit the nodes on a stack and all below them, parents first, given the number of visits. -/
def walkStack (g : Grammar) : Nat → List NodeId → List NodeId
  | 0, _ => []
  | _, [] => []
  | visits + 1, id :: stack => id :: walkStack g visits (g.children id ++ stack)

/-- The nodes of a rule, its root first. -/
def ruleNodes (g : Grammar) (rule : Nat) : List NodeId :=
  match g.rules[rule]? with
  | some r => g.walkStack (g.walkSize g.depthBound r.expression) [r.expression]
  | none => []

end Grammar

/-! ## Source texts -/

/-- A character inside the source of a class. -/
def classSourceChar (c : Char) : List Char :=
  if c = '\\' ∨ c = ']' ∨ c = '^' ∨ c = '-' then ['\\', c]
  else if c = '\n' then ['\\', 'n']
  else if c = '\r' then ['\\', 'r']
  else if c = '\t' then ['\\', 't']
  else [c]

/-- A part inside the source of a class. -/
def ClassPart.source : ClassPart → List Char
  | .char c => classSourceChar c
  | .range first last => classSourceChar first ++ ['-'] ++ classSourceChar last

/-- The source of a class that was built without one. -/
def classSource (parts : List ClassPart) (inverted ignoreCase : Bool) : String :=
  String.ofList (['['] ++ (if inverted then ['^'] else []) ++ parts.flatMap ClassPart.source
    ++ [']'] ++ (if ignoreCase then ['i'] else []))

/-- The source of a regular expression that was built without one. -/
def regexSource (value : String) (ignoreCase multiLine : Bool) : String :=
  "/" ++ value ++ "/" ++ (if ignoreCase then "i" else "") ++ (if multiLine then "m" else "")

end PegMachine
