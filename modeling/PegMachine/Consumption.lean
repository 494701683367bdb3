import PegMachine.Grammar.Basic

/-!
# Consumption

How many characters an expression consumes at least and at most, and which terminals may consume
the first of them. Numbers stop at the greatest number of 32 bits.
-/

namespace PegMachine

/-- The greatest number of characters that is told from all greater ones. -/
def consumptionLimit : Nat := 0xFFFFFFFF

/-- A number of characters, cut off at the limit. -/
def clampCount (n : Nat) : Nat := min n consumptionLimit

/-- The most that is consumed. -/
inductive MaxCount where
  /-- At most this many characters. -/
  | finite (n : Nat)
  /-- Any number of characters. -/
  | infinite
  deriving DecidableEq, Repr, Inhabited

namespace MaxCount

/-- Whether anything may be consumed at all. -/
def isPositive (m : MaxCount) : Bool := m != .finite 0

/-- The most that is consumed by one thing after another. -/
def add : MaxCount → MaxCount → MaxCount
  | .finite a, .finite b => .finite (clampCount (a + b))
  | _, _ => .infinite

/-- The most that is consumed by a number of repetitions. -/
def times (m : MaxCount) (n : Nat) : MaxCount :=
  if n = 0 then .finite 0
  else
    match m with
    | .finite a => .finite (clampCount (a * n))
    | .infinite => .infinite

/-- Whether one bound is no greater than another. -/
def le : MaxCount → MaxCount → Bool
  | .finite a, .finite b => a ≤ b
  | .infinite, .finite _ => false
  | _, .infinite => true

/-- The greater of two bounds. -/
def max (a b : MaxCount) : MaxCount := if a.le b then b else a

/-- A bound as it is shown to a person. -/
def describe : MaxCount → String
  | .finite n => toString n
  | .infinite => "inf"

/-- The document of a bound. -/
def toJson : MaxCount → Json
  | .finite n => .obj [("finite", .nat n)]
  | .infinite => .str "infinite"

end MaxCount

/-- The terminals that may consume a first character, by kind and in the order of their numbers. -/
structure FirstSet where
  /-- Literals. -/
  literals : List NodeId := []
  /-- Character classes. -/
  classes : List NodeId := []
  /-- Regular expressions. -/
  regexes : List NodeId := []
  /-- Terminals that match any character. -/
  anys : List NodeId := []
  deriving DecidableEq, Repr, Inhabited

namespace FirstSet

/-- Add a number to a list of numbers in rising order. -/
def insert (id : NodeId) : List NodeId → List NodeId
  | [] => [id]
  | other :: rest =>
    if id < other then id :: other :: rest
    else if id = other then other :: rest
    else other :: insert id rest

/-- The numbers of two lists in rising order. -/
def merge (a b : List NodeId) : List NodeId := b.foldl (fun ids id => insert id ids) a

/-- The terminals of either set. -/
def union (a b : FirstSet) : FirstSet :=
  ⟨merge a.literals b.literals, merge a.classes b.classes, merge a.regexes b.regexes,
    merge a.anys b.anys⟩

/-- All terminals, kind by kind. -/
def nodes (f : FirstSet) : List NodeId := f.literals ++ f.classes ++ f.regexes ++ f.anys

/-- The document of a set; kinds without terminals are left out. -/
def toJson (f : FirstSet) : Json :=
  let kind (name : String) (ids : List NodeId) : String × Option Json :=
    (name, if ids.isEmpty then none else some (.arr (ids.map .nat)))
  .objOf [kind "literal" f.literals, kind "class" f.classes, kind "regex" f.regexes,
    kind "any" f.anys]

end FirstSet

/-- What an expression consumes. -/
structure Consumption where
  /-- The least number of characters. -/
  min : Nat
  /-- The greatest number of characters. -/
  max : MaxCount
  /-- The terminals that may consume the first character. -/
  first : FirstSet := {}
  deriving DecidableEq, Repr, Inhabited

namespace Consumption

/-- Exactly some number of characters. -/
def exactly (n : Nat) (first : FirstSet := {}) : Consumption := ⟨n, .finite n, first⟩

/-- Nothing at all. -/
def nothing : Consumption := exactly 0

/-- Whether the expression may match without consuming anything. -/
def matchesEmpty (c : Consumption) : Bool := c.min == 0

/-- Whether the least number is no greater than the greatest. -/
def isConsistent (c : Consumption) : Bool := (MaxCount.finite c.min).le c.max

/-- The document of a consumption. -/
def toJson (c : Consumption) : Json :=
  .obj [("min", .nat c.min), ("max", c.max.toJson), ("first", c.first.toJson)]

/-! ## Combining -/

/-- What may also match nothing. -/
def optional (c : Consumption) : Consumption := { c with min := 0 }

/-- Some repetitions, at least one. -/
def repeated (c : Consumption) : Consumption :=
  { c with max := if c.max.isPositive then .infinite else .finite 0 }

/-- One thing after another. -/
def andThen (c e : Consumption) : Consumption where
  min := clampCount (c.min + e.min)
  max := c.max.add e.max
  first := if c.min = 0 then c.first.union e.first else c.first

/-- One thing or another. -/
def orElse (c a : Consumption) : Consumption where
  min := Nat.min c.min a.min
  max := c.max.max a.max
  first := c.first.union a.first

/-- A bounded number of repetitions with something between them. -/
def range (min : Nat) (max : Option Nat) (element delimiter : Consumption) : Consumption :=
  let least := clampCount (element.min * min)
  let least :=
    if 2 ≤ min then clampCount (least + clampCount ((min - 1) * delimiter.min)) else least
  let most : MaxCount := match max with
    | some m => (element.max.times m).add (delimiter.max.times (m - 1))
    | none =>
      if element.max.isPositive || delimiter.max.isPositive then .infinite else .finite 0
  ⟨least, most, if most = .finite 0 then {} else element.first⟩

end Consumption

end PegMachine
