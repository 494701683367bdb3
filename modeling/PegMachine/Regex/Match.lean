import Std.Data.HashSet.Basic
import PegMachine.Regex.Pattern

/-!
# Matching

`Pattern.ends` lists the places where a match that starts at some place can end, in order of
preference and each place once. The first of them is the end of the preferred match: alternatives
count from left to right, greedy repetition prefers to go on, reluctant repetition to stop.

Repetition visits places and marks them, so that it neither loops on empty matches nor looks at a
place twice.
-/

namespace PegMachine.Regex

/-- A place in a text. -/
structure Cursor where
  /-- The number of characters before the place. -/
  index : Nat
  /-- The number of bytes before the place. -/
  offset : Nat
  /-- The character before the place. -/
  before : Option Char
  /-- The text after the place. -/
  rest : List Char

namespace Cursor

/-- The start of a text. -/
def start (text : List Char) : Cursor := ⟨0, 0, none, text⟩

/-- The place after the next character, if there is one in the set. -/
def advance? (c : Cursor) (s : CharSet) : Option Cursor :=
  match c.rest with
  | [] => none
  | ch :: rest =>
    if s.mem ch then some ⟨c.index + 1, c.offset + ch.utf8Size, some ch, rest⟩ else none

/-- The character after the place. -/
def after (c : Cursor) : Option Char := c.rest.head?

/-- Drop every place that stands further left already. -/
def distinct (cs : List Cursor) : List Cursor :=
  match cs with
  | [] => []
  | [c] => [c]
  | cs => (cs.foldl keep (∅, [])).2.reverse
where
  /-- Keep a place unless it was kept before. -/
  keep : Std.HashSet Nat × List Cursor → Cursor → Std.HashSet Nat × List Cursor
    | (seen, kept), c =>
      if seen.contains c.index then (seen, kept) else (seen.insert c.index, c :: kept)

end Cursor

/-! ## Assertions -/

/-- Whether a character is part of a word. -/
def isWordChar (unicode : Bool) (c : Char) : Bool :=
  if c.toNat < 0x80 then c.isAlphanum || c = '_' else unicode && wordChars.mem c

/-- Whether there is a part of a word. -/
def isWord (unicode : Bool) (c : Option Char) : Bool := c.any (isWordChar unicode)

/-- Whether an assertion holds at a place. -/
def Assertion.holds (c : Cursor) : Assertion → Bool
  | .startText => c.before.isNone
  | .endText => c.rest.isEmpty
  | .startLine crlf =>
    c.before.isNone || c.before == some '\n'
      || (crlf && c.before == some '\r' && c.after != some '\n')
  | .endLine crlf =>
    if crlf then
      c.rest.isEmpty || c.after == some '\r' || (c.after == some '\n' && c.before != some '\r')
    else c.rest.isEmpty || c.after == some '\n'
  | .wordBoundary u => isWord u c.before != isWord u c.after
  | .notWordBoundary u => isWord u c.before == isWord u c.after
  | .wordStart u => !isWord u c.before && isWord u c.after
  | .wordEnd u => isWord u c.before && !isWord u c.after
  | .wordStartHalf u => !isWord u c.before
  | .wordEndHalf u => !isWord u c.after

/-! ## Repetition -/

/-- The places visited so far and the ends found so far, last one first. -/
structure Visit where
  /-- What was visited: the repetitions left, where they are counted, and the place. -/
  seen : Std.HashSet (Nat × Nat)
  /-- The ends found. -/
  found : List Cursor

namespace Visit

/-- Nothing visited yet. -/
def none : Visit := ⟨∅, []⟩

/-- One more end. -/
def emit (v : Visit) (c : Cursor) : Visit := { v with found := c :: v.found }

/-- One more visited place. -/
def mark (v : Visit) (left : Nat) (c : Cursor) : Visit :=
  { v with seen := v.seen.insert (left, c.index) }

/-- Whether a place was visited with so many repetitions left. -/
def visited (v : Visit) (left : Nat) (c : Cursor) : Bool := v.seen.contains (left, c.index)

/-- The ends found, each once. -/
def ends (v : Visit) : List Cursor := Cursor.distinct v.found.reverse

end Visit

section Repetition

variable (step : Cursor → List Cursor) (greedy : Bool)

/-- Any number of further repetitions, none of them empty. -/
def visitStar : Nat → Cursor → Visit → Visit
  | 0, _, v => v
  | fuel + 1, c, v =>
    if v.visited 0 c then v
    else
      let v := v.mark 0 c
      if greedy then ((step c).foldl (fun v e => visitStar fuel e v) v).emit c
      else (step c).foldl (fun v e => visitStar fuel e v) (v.emit c)

/-- One repetition and any number of further ones. -/
def visitPlus : Nat → Cursor → Visit → Visit
  | 0, _, v => v
  | fuel + 1, c, v =>
    if v.visited 0 c then v
    else
      (step c).foldl
        (fun v e =>
          if greedy then (visitPlus fuel e v).emit e else visitPlus fuel e (v.emit e))
        (v.mark 0 c)

/-- Up to so many further repetitions. -/
def visitUpTo : Nat → Cursor → Visit → Visit
  | 0, c, v => v.emit c
  | left + 1, c, v =>
    if v.visited left c then v
    else
      let v := v.mark left c
      if greedy then ((step c).foldl (fun v e => visitUpTo left e v) v).emit c
      else (step c).foldl (fun v e => visitUpTo left e v) (v.emit c)

/-- Exactly so many repetitions. -/
def exactly : Nat → List Cursor → List Cursor
  | 0, cs => cs
  | n + 1, cs =>
    if cs.isEmpty then [] else exactly n (Cursor.distinct (cs.flatMap step))

/-- Any number of repetitions of something that can be empty. -/
def anyNullable (c : Cursor) : List Cursor :=
  let more := visitPlus step greedy (c.rest.length + 1) c
  (if greedy then (more .none).emit c else more (Visit.none.emit c)).ends

/-- The ends of a repeated pattern. -/
def repeated (nullable : Bool) (min : Nat) (max : Option Nat) (c : Cursor) : List Cursor :=
  match max with
  | some max =>
    Cursor.distinct ((exactly step min [c]).flatMap fun e =>
      (visitUpTo step greedy (max - min) e .none).ends)
  | none =>
    if min = 0 then
      if nullable then anyNullable step greedy c
      else (visitStar step greedy (c.rest.length + 1) c .none).ends
    else
      Cursor.distinct ((exactly step (min - 1) [c]).flatMap fun e =>
        (visitPlus step greedy (e.rest.length + 1) e .none).ends)

end Repetition

/-! ## Patterns -/

/-- The places where a match that starts at a place can end, in order of preference. -/
def Pattern.ends : Pattern → Cursor → List Cursor
  | .empty, c => [c]
  | .set s, c => (c.advance? s).toList
  | .assert a, c => if a.holds c then [c] else []
  | .seq p q, c => Cursor.distinct ((p.ends c).flatMap q.ends)
  | .alt p q, c => Cursor.distinct (p.ends c ++ q.ends c)
  | .rep body min max greedy, c =>
    repeated body.ends greedy (body.minLength = 0) min max c

/-- The preferred match that starts at a place, by its end. -/
def Pattern.matchAt? (p : Pattern) (c : Cursor) : Option Cursor := (p.ends c).head?

/-- The preferred match that starts at a place or after it, by its end. -/
def Pattern.search? (p : Pattern) : Nat → Cursor → Option Cursor
  | 0, _ => none
  | fuel + 1, c =>
    match p.matchAt? c with
    | some e => some e
    | none => (c.advance? .all).bind (p.search? fuel)

/-- The preferred match of a text, by its end: of the matches that start first, the preferred. -/
def Pattern.find? (p : Pattern) (text : List Char) : Option Cursor :=
  if p.isAnchored then p.matchAt? (.start text) else p.search? (text.length + 1) (.start text)

end PegMachine.Regex
