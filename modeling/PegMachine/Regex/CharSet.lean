import PegMachine.Unicode.LetterCase

/-!
# Sets of characters

The set that a class denotes, as a tree of set operations over spans and property tables.
-/

namespace PegMachine.Regex

/-- A set of characters. -/
inductive CharSet where
  /-- No character. -/
  | empty
  /-- All characters from one to another. -/
  | range (lo hi : Char)
  /-- The characters of a table. -/
  | table (t : Unicode.RangeTable)
  /-- What is in either set. -/
  | union (a b : CharSet)
  /-- What is in both sets. -/
  | inter (a b : CharSet)
  /-- What is in the first set only. -/
  | diff (a b : CharSet)
  /-- What is in exactly one of the sets. -/
  | symmDiff (a b : CharSet)
  /-- What is not in the set. -/
  | compl (a : CharSet)
  /-- What differs from a member in case only, members included. -/
  | anyCase (a : CharSet)
  deriving Inhabited, Repr

namespace CharSet

/-- Whether a character is in the set. -/
def mem (c : Char) : CharSet → Bool
  | .empty => false
  | .range lo hi => lo ≤ c && c ≤ hi
  | .table t => t.contains c
  | .union a b => a.mem c || b.mem c
  | .inter a b => a.mem c && b.mem c
  | .diff a b => a.mem c && !b.mem c
  | .symmDiff a b => a.mem c != b.mem c
  | .compl a => !a.mem c
  | .anyCase a => a.mem c || (Unicode.caseVariants c).any fun v => a.mem v

/-- The set of one character. -/
def single (c : Char) : CharSet := .range c c

/-- The union of some sets. -/
def unionAll (sets : List CharSet) : CharSet := sets.foldr .union .empty

/-- The union of spans given by their ends. -/
def ofRanges (ranges : List (Char × Char)) : CharSet :=
  unionAll (ranges.map fun (lo, hi) => .range lo hi)

/-- All characters. -/
def all : CharSet := .compl .empty

/-- Whether a member exists among the characters with numbers from 128 to 255. -/
def reachesHighBytes (s : CharSet) : Bool :=
  (List.range 128).any fun n => s.mem (Char.ofNat (128 + n))

/-- How many spans a set takes at most, up to complements. -/
def spans : CharSet → Nat
  | .empty => 0
  | .range _ _ => 1
  | .table t => t.length
  | .union a b => a.spans + b.spans
  | .inter a b => a.spans + b.spans
  | .diff a b => a.spans + b.spans
  | .symmDiff a b => a.spans + b.spans
  | .compl a => a.spans + 1
  | .anyCase a => a.spans + 1

end CharSet

end PegMachine.Regex
