import PegMachine.Regex.Match
import PegMachine.Regex.Parser

/-!
# Regular expressions

Patterns as text, compiled and matched. A text is a pattern if it can be read, has a meaning and
does not need too large an automaton. Matches prefer what stands further left in the pattern.
-/

namespace PegMachine

/-- A compiled regular expression. -/
structure Regex where
  /-- The text of the pattern. -/
  source : String
  /-- The meaning of the pattern. -/
  pattern : Regex.Pattern

namespace Regex

/-- The meaning of a pattern, if the text is one. -/
def pattern? (source : List Char) : Option Pattern := do
  let ast ← parse? source
  let (p, _) ← ast.pattern? .initial
  if p.states ≤ statesLimit then some p else none

/-- Compile a pattern, if the text is one. -/
def compile? (source : String) : Option Regex := (pattern? source.toList).map (⟨source, ·⟩)

/-- The byte offset where the preferred match of a text ends, if there is a match. -/
def matchEnd? (r : Regex) (text : List Char) : Option Nat :=
  (r.pattern.find? text).map (·.offset)

/-- Whether a text has a match. -/
def isMatch (r : Regex) (text : List Char) : Bool := (r.matchEnd? text).isSome

/-- A text as a pattern that matches just this text. -/
def escape (text : List Char) : List Char :=
  text.flatMap fun c => if isMeta c then ['\\', c] else [c]

/-- The pattern that matches only at the start of a text, with flags for letter case and lines. -/
def anchored (pattern : String) (ignoreCase multiLine : Bool) : String :=
  let flags := (if ignoreCase then "i" else "") ++ (if multiLine then "m" else "")
  (if flags.isEmpty then "" else "(?" ++ flags ++ ")") ++ "\\A(?:" ++ pattern ++ ")"

/-- Whether a pattern matches the empty text; nothing if it is no pattern. -/
def matchesEmpty? (pattern : String) (ignoreCase multiLine : Bool) : Option Bool :=
  (compile? (anchored pattern ignoreCase multiLine ++ "\\z")).map (·.isMatch [])

end Regex

end PegMachine
