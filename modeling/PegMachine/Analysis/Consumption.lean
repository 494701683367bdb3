import PegMachine.Facts
import PegMachine.Regex

/-!
# Finding what expressions consume

What a reference consumes is read off the record of the rule it refers to, so the records of all
rules are found by sweeping over the rules until nothing changes. They start with nothing at all
and only grow. Rules that recur without an end would grow forever; after some sweeps every bound
that still moves is therefore given up: the greatest number becomes infinite and the least one
stays as it is.
-/

namespace PegMachine

namespace Consumption

/-- What is needed to say what a node consumes. -/
structure Context where
  /-- The grammar. -/
  grammar : Grammar
  /-- For each node that is a regular expression, whether it matches nothing at all. -/
  emptyRegex : Array Bool
  /-- The rule that each reference refers to. -/
  targets : Array (Option Nat)
  /-- What each rule consumes, as far as it is known. -/
  records : Array Consumption

/-- Whether a shape is a regular expression that may match without consuming anything. One that
is no pattern is taken for such. -/
def regexMatchesEmpty : Shape → Bool
  | .regex value ignoreCase multiLine _ =>
    (Regex.matchesEmpty? value ignoreCase multiLine).getD true
  | _ => false

/-- What a sequence consumes, given what its elements consume. -/
def ofSequence (elements : List Consumption) : Consumption := elements.foldl andThen nothing

/-- What a choice consumes, given what its alternatives consume. -/
def ofChoice : List Consumption → Consumption
  | [] => nothing
  | first :: rest => rest.foldl orElse first

/-- What a node consumes, given a bound on the depth below it. -/
def ofNode (c : Context) : Nat → NodeId → Consumption
  | 0, _ => nothing
  | depth + 1, id =>
    let child := ofNode c depth
    match c.grammar.shape id with
    | .literal value _ =>
      let n := (UInt32.ofNat value.length).toNat
      exactly n { literals := if 0 < n then [id] else [] }
    | .charClass .. => exactly 1 { classes := [id] }
    | .any => exactly 1 { anys := [id] }
    | .regex .. =>
      ⟨if c.emptyRegex.getD id true then 0 else 1, .infinite, { regexes := [id] }⟩
    | .epsilon | .semanticAnd _ | .semanticNot _ | .code _ => nothing
    | .simpleAnd _ | .simpleNot _ => nothing
    | .named _ e | .action e _ | .labeled _ e | .text e => child e
    | .optional e => (child e).optional
    | .zeroOrMore e => (child e).repeated.optional
    | .oneOrMore e => (child e).repeated
    | .range min max e delimiter =>
      range min.toNat (max.map (·.toNat)) (child e) (delimiter.elim nothing child)
    | .sequence elements => ofSequence (elements.map child)
    | .choice alternatives => ofChoice (alternatives.map child)
    | .ruleRef _ => (c.targets[id]?.join.bind (c.records[·]?)).getD nothing

/-- What a rule consumes. -/
def ofRule (c : Context) (r : Rule) : Consumption :=
  ofNode c c.grammar.depthBound r.expression

/-- The record of a rule after it was found anew. -/
def settle (widen : Bool) (current next : Consumption) : Consumption :=
  if next = current then current
  else if widen then
    ⟨current.min, if next.max = current.max then next.max else .infinite,
      next.first.union current.first⟩
  else next

/-- Find the record of every rule anew. -/
def sweep (c : Context) (widen : Bool) : Context :=
  c.grammar.rules.zipIdx.foldl
    (fun c (r, index) =>
      let current := c.records.getD index nothing
      { c with records := c.records.setIfInBounds index (settle widen current (ofRule c r)) }) c

/-- The number of sweeps before bounds are given up. -/
def patience (g : Grammar) : Nat := g.rules.length + 2

/-- A number of sweeps that is always enough: after bounds are given up, each sweep that changes
something makes a greatest number infinite or adds a terminal to a record. -/
def sweepBound (g : Grammar) : Nat := patience g + g.rules.length * (g.nodes.size + 2) + 1

/-- Sweep until nothing changes, given the number of sweeps so far. -/
def sweeps (c : Context) (done : Nat) : Nat → Context
  | 0 => c
  | fuel + 1 =>
    let next := sweep c (patience c.grammar ≤ done)
    if next.records = c.records then c else sweeps next (done + 1) fuel

/-- What is needed before the first sweep. -/
def start (g : Grammar) (f : Facts) : Context where
  grammar := g
  emptyRegex := g.nodes.map (regexMatchesEmpty ·.shape)
  targets := f.targets
  records := Array.replicate g.rules.length nothing

/-- The records of all rules. -/
def solve (g : Grammar) (f : Facts) : Context := sweeps (start g f) 0 (sweepBound g)

/-- What each node that belongs to a rule consumes. -/
def nodeTable (c : Context) : Array (Option Consumption) :=
  let g := c.grammar
  let ids := (List.range g.rules.length).flatMap g.ruleNodes
  ids.foldl (fun table id => table.setIfInBounds id (some (ofNode c g.depthBound id)))
    (Array.replicate g.nodes.size none)

end Consumption

/-- Find what every node and every rule consumes. -/
def Facts.analyze (f : Facts) (g : Grammar) : Facts :=
  let c := Consumption.solve g f
  { f with
    consumption := Consumption.nodeTable c
    rules := f.rules.mapIdx fun i r =>
      { r with consumption := (c.records[i]?).orElse fun _ => r.consumption } }

end PegMachine
