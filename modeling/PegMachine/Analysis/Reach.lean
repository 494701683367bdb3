import PegMachine.Facts

/-!
# Reaching

Which numbers below a bound can be reached from some of them by following edges. Reaching is
computed in rounds, each of which follows the edges of everything reached so far; there are as
many rounds as there are numbers, after which a round adds nothing.
-/

namespace PegMachine

namespace Reach

/-- Mark some numbers. -/
def markAll (marked : Array Bool) (ids : List Nat) : Array Bool :=
  ids.foldl (fun marked i => marked.setIfInBounds i true) marked

/-- Follow the edges of every marked number below a bound. -/
def round (edges : Nat → List Nat) (bound : Nat) (marked : Array Bool) : Array Bool :=
  (List.range bound).foldl
    (fun marked i => if marked.getD i false then markAll marked (edges i) else marked) marked

/-- Follow edges for a number of rounds. -/
def rounds (edges : Nat → List Nat) (bound : Nat) : Nat → Array Bool → Array Bool
  | 0, marked => marked
  | n + 1, marked => rounds edges bound n (round edges bound marked)

/-- The numbers below a bound that can be reached from some numbers, themselves included. -/
def closure (edges : Nat → List Nat) (bound : Nat) (start : List Nat) : Array Bool :=
  rounds edges bound bound (markAll (Array.replicate bound false) start)

end Reach

/-- The rules that a rule refers to. -/
def Facts.callees (f : Facts) (g : Grammar) (rule : Nat) : List Nat :=
  (g.ruleNodes rule).filterMap f.target?

/-- Which rules can be reached from the rules that a parse may start from. -/
def Facts.reachable (f : Facts) (g : Grammar) : Array Bool :=
  let edges := ((List.range g.rules.length).map (f.callees g)).toArray
  Reach.closure (edges.getD · []) g.rules.length (f.starterIndices g)

end PegMachine
