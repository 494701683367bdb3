import PegMachine.Grammar.Basic

/-!
# Nested expressions

Grammars as people and tools write them down: expressions inside expressions. `Grammar.ofSource`
flattens such a description into an arena, children before their parents; the combinators build
descriptions.
-/

namespace PegMachine

mutual

/-- An expression with its place in the text of the grammar. -/
inductive Expr where
  /-- An expression of a form at a place. -/
  | mk (form : Expr.Form) (location : Option Location)

/-- What an expression is; the cases are those of `Shape`. -/
inductive Expr.Form where
  /-- An expression that failures report under a name. -/
  | named (name : String) (expression : Expr)
  /-- Ordered choice. -/
  | choice (alternatives : List Expr)
  /-- An expression whose value is computed by code. -/
  | action (expression : Expr) (code : String)
  /-- Expressions one after the other. -/
  | sequence (elements : List Expr)
  /-- An expression with a label, or one that gives its value to the sequence around it. -/
  | labeled (label : Option String) (expression : Expr)
  /-- The matched text instead of the value. -/
  | text (expression : Expr)
  /-- Look ahead for a match. -/
  | simpleAnd (expression : Expr)
  /-- Look ahead for the absence of a match. -/
  | simpleNot (expression : Expr)
  /-- A match or nothing. -/
  | optional (expression : Expr)
  /-- Any number of matches. -/
  | zeroOrMore (expression : Expr)
  /-- At least one match. -/
  | oneOrMore (expression : Expr)
  /-- A bounded number of matches, perhaps with something between them. -/
  | range (min : UInt32) (max : Option UInt32) (expression : Expr) (delimiter : Option Expr)
  /-- Code that has to answer true. -/
  | semanticAnd (code : String)
  /-- Code that has to answer false. -/
  | semanticNot (code : String)
  /-- A rule, by name. -/
  | ruleRef (name : String)
  /-- A literal text. -/
  | literal (value : String) (ignoreCase : Bool)
  /-- A character class. -/
  | charClass (parts : List ClassPart) (inverted ignoreCase : Bool) (rawText : Option String)
  /-- A regular expression. -/
  | regex (value : String) (ignoreCase multiLine : Bool) (rawText : Option String)
  /-- Any character. -/
  | any
  /-- The empty match. -/
  | epsilon
  /-- Code that gives a value. -/
  | code (code : String)

end

instance : Inhabited Expr := ⟨.mk .epsilon none⟩

/-- A rule as it is written down. -/
structure RuleSource where
  /-- The name. -/
  name : String
  /-- The expression. -/
  expression : Expr
  /-- The annotations. -/
  annotations : List Annotation := []
  /-- Where it stands in the text of the grammar. -/
  location : Option Location := none
  deriving Inhabited

/-- A grammar as it is written down. -/
structure GrammarSource where
  /-- The rules. -/
  rules : List RuleSource := []
  /-- Code to put before a generated parser. -/
  initializer : Option String := none
  deriving Inhabited

/-! ## Flattening -/

namespace Grammar

mutual

/-- Add an expression to the arena, children first. -/
def addExpr (g : Grammar) : Expr → NodeId × Grammar
  | .mk form location =>
    let (shape, g) := g.addForm form
    g.addNode shape location

/-- Add the children of a form to the arena; the result is the shape of the form itself. -/
def addForm (g : Grammar) : Expr.Form → Shape × Grammar
  | .named name e => let (id, g) := g.addExpr e; (.named name id, g)
  | .choice es => let (ids, g) := g.addExprs es; (.choice ids, g)
  | .action e code => let (id, g) := g.addExpr e; (.action id code, g)
  | .sequence es => let (ids, g) := g.addExprs es; (.sequence ids, g)
  | .labeled label e => let (id, g) := g.addExpr e; (.labeled label id, g)
  | .text e => let (id, g) := g.addExpr e; (.text id, g)
  | .simpleAnd e => let (id, g) := g.addExpr e; (.simpleAnd id, g)
  | .simpleNot e => let (id, g) := g.addExpr e; (.simpleNot id, g)
  | .optional e => let (id, g) := g.addExpr e; (.optional id, g)
  | .zeroOrMore e => let (id, g) := g.addExpr e; (.zeroOrMore id, g)
  | .oneOrMore e => let (id, g) := g.addExpr e; (.oneOrMore id, g)
  | .range min max e none => let (id, g) := g.addExpr e; (.range min max id none, g)
  | .range min max e (some d) =>
    let (id, g) := g.addExpr e
    let (delimiter, g) := g.addExpr d
    (.range min max id (some delimiter), g)
  | .semanticAnd code => (.semanticAnd code, g)
  | .semanticNot code => (.semanticNot code, g)
  | .ruleRef name => (.ruleRef name, g)
  | .literal value ignoreCase => (.literal value ignoreCase, g)
  | .charClass parts inverted ignoreCase raw =>
    (.charClass parts inverted ignoreCase (raw.getD (classSource parts inverted ignoreCase)), g)
  | .regex value ignoreCase multiLine raw =>
    (.regex value ignoreCase multiLine (raw.getD (regexSource value ignoreCase multiLine)), g)
  | .any => (.any, g)
  | .epsilon => (.epsilon, g)
  | .code code => (.code code, g)

/-- Add several expressions to the arena, one after the other. -/
def addExprs (g : Grammar) : List Expr → List NodeId × Grammar
  | [] => ([], g)
  | e :: es =>
    let (id, g) := g.addExpr e
    let (ids, g) := g.addExprs es
    (id :: ids, g)

end

/-- Add a rule with its expression. -/
def addRule (g : Grammar) (r : RuleSource) : Grammar :=
  let (root, g) := g.addExpr r.expression
  { g with rules := g.rules ++ [⟨r.name, root, r.annotations, r.location⟩] }

/-- Flatten a grammar as it is written down. -/
def ofSource (source : GrammarSource) : Grammar :=
  source.rules.foldl addRule { initializer := source.initializer }

end Grammar

/-! ## Combinators -/

namespace Expr

/-- An expression without a place. -/
def of (form : Form) : Expr := .mk form none

/-- Put an expression at a place. -/
def located : Expr → Location → Expr
  | .mk form _, location => .mk form (some location)

/-- One expression after another; a sequence without a place of its own is continued. -/
def followedBy : Expr → Expr → Expr
  | .mk (.sequence es) none, other => of (.sequence (es ++ [other]))
  | .mk form _, other => of (.sequence [of form, other])

/-- One expression or else another; a choice without a place of its own is continued. -/
def orElse : Expr → Expr → Expr
  | .mk (.choice es) none, other => of (.choice (es ++ [other]))
  | .mk form _, other => of (.choice [of form, other])

/-- An expression under a label. -/
def label (name : String) (e : Expr) : Expr := of (.labeled (some name) e)

/-- An expression whose value is computed by code. -/
def action (e : Expr) (code : String) : Expr := of (.action e code)

/-- A literal text. -/
def literal (value : String) (ignoreCase : Bool) : Expr := of (.literal value ignoreCase)

/-- A character class. -/
def charClass (parts : List ClassPart) (inverted ignoreCase : Bool) : Expr :=
  of (.charClass parts inverted ignoreCase none)

/-- A regular expression. -/
def regex (pattern : String) (ignoreCase multiLine : Bool) : Expr :=
  of (.regex pattern ignoreCase multiLine none)

end Expr

end PegMachine
