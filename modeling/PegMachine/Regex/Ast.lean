/-!
# Patterns as written

The tree of a regular expression as its text describes it. Flags stay where they are written; what
they mean for the rest of the pattern is settled when the tree is given a meaning.
-/

namespace PegMachine.Regex

/-- A flag. -/
inductive Flag where
  /-- Letter case is ignored. -/
  | ignoreCase
  /-- The line anchors match at every line. -/
  | multiLine
  /-- The dot matches line ends. -/
  | dotAll
  /-- Greedy and reluctant repetition change places. -/
  | swapGreed
  /-- Classes and case know all characters, not only ASCII. -/
  | unicode
  /-- A carriage return counts as a line end. -/
  | crlf
  /-- Blanks and comments between items are skipped. -/
  | ignoreBlanks
  deriving DecidableEq, Repr

/-- The flags that a group of flags turns on or off. -/
abbrev FlagSet := List (Flag × Bool)

/-- A place that a pattern can ask for. -/
inductive Anchor where
  /-- The circumflex. -/
  | caret
  /-- The dollar sign. -/
  | dollar
  /-- The start of the text. -/
  | startText
  /-- The end of the text. -/
  | endText
  /-- A place between a word and something else. -/
  | wordBoundary
  /-- Any other place. -/
  | notWordBoundary
  /-- The start of a word. -/
  | wordStart
  /-- The end of a word. -/
  | wordEnd
  /-- A place with no word before it. -/
  | wordStartHalf
  /-- A place with no word after it. -/
  | wordEndHalf
  deriving DecidableEq, Repr

/-- A class with a letter of its own. -/
inductive PerlClass where
  /-- Decimal digits. -/
  | digit
  /-- White space. -/
  | space
  /-- Parts of words. -/
  | word
  deriving DecidableEq, Repr

/-- A class of ASCII characters with a name. -/
inductive AsciiClass where
  /-- Letters and digits. -/
  | alnum
  /-- Letters. -/
  | alpha
  /-- All of ASCII. -/
  | ascii
  /-- Space and tab. -/
  | blank
  /-- Control characters. -/
  | cntrl
  /-- Digits. -/
  | digit
  /-- Visible characters. -/
  | graph
  /-- Small letters. -/
  | lower
  /-- Visible characters and the space. -/
  | print
  /-- Punctuation. -/
  | punct
  /-- White space. -/
  | space
  /-- Capital letters. -/
  | upper
  /-- Letters, digits and the underscore. -/
  | word
  /-- Digits of base sixteen. -/
  | xdigit
  deriving DecidableEq, Repr

/-- How a class of characters is named by a property. -/
inductive PropertyQuery where
  /-- One name. -/
  | named (name : List Char)
  /-- A property and one of its values, or, if `equal` is false, all its other values. -/
  | valued (name value : List Char) (equal : Bool)
  deriving DecidableEq, Repr

/-- An operation on two classes. -/
inductive ClassOp where
  /-- What is in both. -/
  | intersection
  /-- What is in the first only. -/
  | difference
  /-- What is in exactly one. -/
  | symmetricDifference
  deriving DecidableEq, Repr

/-- What stands between the brackets of a class. -/
inductive ClassSet where
  /-- A character; `hex` if it is written by its number. -/
  | literal (c : Char) (hex : Bool)
  /-- All characters from one to another. -/
  | range (lo hi : Char)
  /-- A named class of ASCII characters, or all that is not in it. -/
  | ascii (cls : AsciiClass) (negated : Bool)
  /-- A class with a letter of its own, or all that is not in it. -/
  | perl (cls : PerlClass) (negated : Bool)
  /-- A class named by a property, or all that is not in it. -/
  | property (query : PropertyQuery) (negated : Bool)
  /-- A class in brackets, or all that is not in it. -/
  | bracketed (set : ClassSet) (negated : Bool)
  /-- What is in any of some sets. -/
  | union (sets : List ClassSet)
  /-- An operation on two sets. -/
  | binary (op : ClassOp) (left right : ClassSet)
  deriving Repr, Inhabited

/-- A pattern. -/
inductive Ast where
  /-- The empty pattern. -/
  | empty
  /-- Flags for what follows in the same group. -/
  | flags (set : FlagSet)
  /-- A character; `hex` if it is written by its number. -/
  | literal (c : Char) (hex : Bool)
  /-- The dot. -/
  | dot
  /-- A place. -/
  | anchor (a : Anchor)
  /-- A class with a letter of its own, or all that is not in it. -/
  | perl (cls : PerlClass) (negated : Bool)
  /-- A class named by a property, or all that is not in it. -/
  | property (query : PropertyQuery) (negated : Bool)
  /-- A class in brackets, or all that is not in it. -/
  | bracketed (set : ClassSet) (negated : Bool)
  /-- A repeated pattern. -/
  | repetition (body : Ast) (min : Nat) (max : Option Nat) (greedy : Bool)
  /-- A group, perhaps with flags of its own. -/
  | group (flags : FlagSet) (body : Ast)
  /-- Patterns of which one has to match. -/
  | alternation (branches : List Ast)
  /-- Patterns that match one after the other. -/
  | concat (parts : List Ast)
  deriving Repr, Inhabited

/-! ## Nesting -/

mutual

/-- How deeply the sets of a class are nested. -/
def ClassSet.depth : ClassSet → Nat
  | .bracketed set _ => set.depth + 1
  | .union sets => depthOfSets sets + 1
  | .binary _ left right => max left.depth right.depth + 1
  | _ => 0

/-- The depth of the deepest of some sets. -/
def depthOfSets : List ClassSet → Nat
  | [] => 0
  | set :: rest => max set.depth (depthOfSets rest)

end

mutual

/-- How deeply the parts of a pattern are nested. -/
def Ast.depth : Ast → Nat
  | .bracketed set _ => set.depth + 1
  | .repetition body _ _ _ => body.depth + 1
  | .group _ body => body.depth + 1
  | .alternation branches => depthOfAsts branches + 1
  | .concat parts => depthOfAsts parts + 1
  | _ => 0

/-- The depth of the deepest of some patterns. -/
def depthOfAsts : List Ast → Nat
  | [] => 0
  | a :: rest => max a.depth (depthOfAsts rest)

end

/-- The greatest depth that a pattern may have. -/
def depthLimit : Nat := 250

end PegMachine.Regex
