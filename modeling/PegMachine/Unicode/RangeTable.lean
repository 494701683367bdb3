/-!
# Range tables

A set of characters as a list of spans of code points. Tables are written down as lines of text:
code points in base sixteen, a span as its two ends joined by `-`, spans separated by a space.
`decode` reads such lines and `contains` looks a character up.
-/

namespace PegMachine.Unicode

/-- The code points from `lo` to `hi`, both included. -/
structure Span where
  /-- The first code point. -/
  lo : Nat
  /-- The last code point. -/
  hi : Nat
  deriving Repr, DecidableEq

/-- Whether a code point lies in the span. -/
def Span.contains (s : Span) (n : Nat) : Bool := s.lo ≤ n && n ≤ s.hi

/-- A set of code points as a list of spans. -/
abbrev RangeTable := List Span

namespace RangeTable

/-- Whether some span of the table holds the character. -/
def contains (t : RangeTable) (c : Char) : Bool := t.any (·.contains c.toNat)

/-! ## Reading a table -/

/-- A table that is being read: the spans so far, the first end of the span being read if it is
behind us, and the number being read. -/
structure Draft where
  /-- The spans read so far, last one first. -/
  done : List Span
  /-- The first end of the current span, once its dash is read. -/
  first : Option Nat
  /-- The digits read since the last space or dash, as a number. -/
  value : Nat

/-- The value of a digit in base sixteen; zero for anything else. -/
def digitValue (c : Char) : Nat :=
  if '0' ≤ c ∧ c ≤ '9' then c.toNat - 48
  else if 'A' ≤ c ∧ c ≤ 'F' then c.toNat - 55
  else 0

/-- End the span being read. -/
def Draft.close (d : Draft) : Draft where
  done := ⟨d.first.getD d.value, d.value⟩ :: d.done
  first := none
  value := 0

/-- Read one character of a table. -/
def Draft.read (d : Draft) (c : Char) : Draft :=
  if c = ' ' then d.close
  else if c = '-' then { d with first := some d.value, value := 0 }
  else { d with value := 16 * d.value + digitValue c }

/-- The spans that a line describes. -/
def decodeLine (line : String) : RangeTable :=
  (line.toList.foldl Draft.read ⟨[], none, 0⟩).close.done.reverse

/-- The table that some lines describe. -/
def decode (lines : List String) : RangeTable := lines.flatMap decodeLine

end RangeTable

end PegMachine.Unicode
