import PegMachine.Facts

/-!
# Labels

All labels of a rule share one scope, except that every alternative of a choice and everything
under a label starts from a copy of the scope around it. `duplicateLabels` finds the labels that
are bound twice in one scope. `Facts.nameElements` gives the elements of sequences that have no
label a positional name.
-/

namespace PegMachine

/-- A label that is bound although it is bound already. -/
structure DuplicateLabel where
  /-- The label. -/
  label : String
  /-- The index of the rule. -/
  rule : Nat
  /-- Where the second binding is. -/
  location : Option Location
  deriving DecidableEq, Repr, Inhabited

namespace LabelScope

/-- The duplicates found so far and the labels bound so far. -/
abbrev Found := List DuplicateLabel × List String

/-- Bind a label; it is a duplicate if it is bound already. -/
def bind (rule : Nat) (location : Option Location) (label : String) : Found → Found
  | (found, bound) =>
    if bound.contains label then (found ++ [⟨label, rule, location⟩], bound)
    else (found, label :: bound)

/-- Check a part under a copy of the scope. -/
def forked (check : Found → Found) : Found → Found
  | (found, bound) => ((check (found, bound)).1, bound)

/-- Check a node of a rule, given a bound on the depth below it. -/
def check (g : Grammar) (rule : Nat) : Nat → NodeId → Found → Found
  | 0, _, s => s
  | depth + 1, id, s =>
    let child := check g rule depth
    match g.shape id with
    | .choice alternatives => alternatives.foldl (fun s alt => forked (child alt) s) s
    | .labeled label e =>
      let s := forked (child e) s
      match label with
      | some label => bind rule (g.node id).location label s
      | none => s
    | shape => shape.children.foldl (fun s e => child e s) s

end LabelScope

namespace Grammar

/-- The labels of a rule that are bound twice in one scope. -/
def duplicateLabelsOf (g : Grammar) (index : Nat) (r : Rule) : List DuplicateLabel :=
  (LabelScope.check g index g.depthBound r.expression ([], [])).1

/-- The labels that are bound twice in one scope, in the order of the rules. -/
def duplicateLabels (g : Grammar) : List DuplicateLabel :=
  g.rules.zipIdx.flatMap fun (r, index) => g.duplicateLabelsOf index r

/-- Whether a node carries a label. -/
def isLabeled (g : Grammar) (id : NodeId) : Bool :=
  match g.shape id with
  | .labeled (some _) _ => true
  | _ => false

end Grammar

namespace Facts

/-- Name the elements of a sequence by their place, unless they carry labels. -/
def nameElementsOf (g : Grammar) (elements : List NodeId) (names : Array (Option String)) :
    Array (Option String) :=
  elements.zipIdx.foldl
    (fun names (e, i) =>
      names.setIfInBounds e (if g.isLabeled e then none else some ("$" ++ toString (i + 1)))) names

/-- Name the elements of all sequences by their place, unless they carry labels. -/
def nameElements (f : Facts) (g : Grammar) : Facts :=
  let ids := (List.range g.rules.length).flatMap g.ruleNodes
  let nameUnder (names : Array (Option String)) (id : NodeId) : Array (Option String) :=
    match g.shape id with
    | .sequence elements => nameElementsOf g elements names
    | _ => names
  { f with autoLabels := ids.foldl nameUnder f.autoLabels }

end Facts

end PegMachine
