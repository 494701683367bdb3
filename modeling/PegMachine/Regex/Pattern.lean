import PegMachine.Regex.Property

/-!
# The meaning of patterns

A pattern with its flags settled: every class is a set of characters and every anchor a question
about the neighbouring characters. Not every tree has a meaning: properties may be unknown, and
without the Unicode flag a class must not reach beyond ASCII.
-/

namespace PegMachine.Regex

/-- A question about a place in the text. -/
inductive Assertion where
  /-- The text starts here. -/
  | startText
  /-- The text ends here. -/
  | endText
  /-- A line starts here; `crlf` if carriage returns end lines too. -/
  | startLine (crlf : Bool)
  /-- A line ends here; `crlf` if carriage returns end lines too. -/
  | endLine (crlf : Bool)
  /-- A word starts or ends here. -/
  | wordBoundary (unicode : Bool)
  /-- No word starts or ends here. -/
  | notWordBoundary (unicode : Bool)
  /-- A word starts here. -/
  | wordStart (unicode : Bool)
  /-- A word ends here. -/
  | wordEnd (unicode : Bool)
  /-- No word stands before this place. -/
  | wordStartHalf (unicode : Bool)
  /-- No word stands after this place. -/
  | wordEndHalf (unicode : Bool)
  deriving DecidableEq, Repr

/-- A pattern with its flags settled. -/
inductive Pattern where
  /-- Matches the empty text. -/
  | empty
  /-- Matches one character of a set. -/
  | set (s : CharSet)
  /-- Matches the empty text where the assertion holds. -/
  | assert (a : Assertion)
  /-- Matches one pattern after the other. -/
  | seq (p q : Pattern)
  /-- Matches either pattern, the first one preferred. -/
  | alt (p q : Pattern)
  /-- Matches a pattern several times. -/
  | rep (body : Pattern) (min : Nat) (max : Option Nat) (greedy : Bool)
  deriving Inhabited, Repr

/-! ## Flags -/

/-- The flags in force. -/
structure Flags where
  /-- Letter case is ignored. -/
  ignoreCase : Bool
  /-- The line anchors match at every line. -/
  multiLine : Bool
  /-- The dot matches line ends. -/
  dotAll : Bool
  /-- Greedy and reluctant repetition change places. -/
  swapGreed : Bool
  /-- Classes and case know all characters. -/
  unicode : Bool
  /-- A carriage return counts as a line end. -/
  crlf : Bool

namespace Flags

/-- The flags at the start of a pattern. -/
def initial : Flags := ⟨false, false, false, false, true, false⟩

/-- Turn one flag on or off. -/
def set (f : Flags) : Flag × Bool → Flags
  | (.ignoreCase, b) => { f with ignoreCase := b }
  | (.multiLine, b) => { f with multiLine := b }
  | (.dotAll, b) => { f with dotAll := b }
  | (.swapGreed, b) => { f with swapGreed := b }
  | (.unicode, b) => { f with unicode := b }
  | (.crlf, b) => { f with crlf := b }
  | (.ignoreBlanks, _) => f

/-- Turn several flags on or off. -/
def setAll (f : Flags) (changes : FlagSet) : Flags := changes.foldl set f

end Flags

/-! ## Classes -/

/-- The characters of an ASCII class. -/
def AsciiClass.set : AsciiClass → CharSet
  | .alnum => .ofRanges [('0', '9'), ('A', 'Z'), ('a', 'z')]
  | .alpha => .ofRanges [('A', 'Z'), ('a', 'z')]
  | .ascii => .range '\x00' '\x7f'
  | .blank => .ofRanges [('\t', '\t'), (' ', ' ')]
  | .cntrl => .ofRanges [('\x00', '\x1f'), ('\x7f', '\x7f')]
  | .digit => .range '0' '9'
  | .graph => .range '!' '~'
  | .lower => .range 'a' 'z'
  | .print => .range ' ' '~'
  | .punct => .ofRanges [('!', '/'), (':', '@'), ('[', '\x60'), ('\x7b', '~')]
  | .space => .ofRanges [('\t', '\r'), (' ', ' ')]
  | .upper => .range 'A' 'Z'
  | .word => .ofRanges [('0', '9'), ('A', 'Z'), ('_', '_'), ('a', 'z')]
  | .xdigit => .ofRanges [('0', '9'), ('A', 'F'), ('a', 'f')]

/-- The characters that words are made of. -/
def wordChars : CharSet :=
  CharSet.unionAll ([.table Unicode.Property.alphabetic.table]
    ++ Unicode.Category.marks.map (fun c => .table c.table)
    ++ [.table Unicode.Category.decimalNumber.table,
        .table Unicode.Category.connectorPunctuation.table,
        .table Unicode.Property.joinControl.table])

/-- The characters of a class with a letter of its own. -/
def PerlClass.set (unicode : Bool) : PerlClass → CharSet
  | .digit => if unicode then .table Unicode.Category.decimalNumber.table else AsciiClass.digit.set
  | .space => if unicode then .table Unicode.Property.whiteSpace.table else AsciiClass.space.set
  | .word => if unicode then wordChars else AsciiClass.word.set

/-- The letters that differ in case from an ASCII letter of the set, and the set itself. -/
def asciiCase (s : CharSet) : CharSet :=
  let letters := (List.range 26).flatMap fun n =>
    let upper := Char.ofNat (65 + n)
    let lower := Char.ofNat (97 + n)
    if s.mem upper || s.mem lower then [(upper, upper), (lower, lower)] else []
  .union s (.ofRanges letters)

/-- Close a set under letter case, if case is ignored. -/
def foldSet (f : Flags) (s : CharSet) : CharSet :=
  if f.ignoreCase then if f.unicode then .anyCase s else asciiCase s else s

/-- The complement of a set. Without the Unicode flag this is taken among the bytes. -/
def complement (s : CharSet) : CharSet := .compl s

/-- A set or its complement. -/
def signed (negated : Bool) (s : CharSet) : CharSet := if negated then complement s else s

mutual

/-- The characters of a class, before its own brackets apply. -/
def ClassSet.set? (f : Flags) : ClassSet → Option CharSet
  | .literal c hex =>
    if f.unicode || c.toNat < 0x80 || (hex && c.toNat ≤ 0xFF) then some (.single c) else none
  | .range lo hi => if f.unicode || hi.toNat ≤ 0xFF then some (.range lo hi) else none
  | .ascii cls negated => some (signed negated (foldSet f cls.set))
  | .perl cls negated => some (signed negated (cls.set f.unicode))
  | .property query negated =>
    if f.unicode then query.set?.map fun s => signed negated (foldSet f s) else none
  | .bracketed set negated => (set.set? f).map fun s => signed negated (foldSet f s)
  | .union sets => unionOfSets? f sets
  | .binary op left right =>
    match left.set? f, right.set? f with
    | some l, some r =>
      let l := foldSet f l
      let r := foldSet f r
      some (match op with
        | .intersection => .inter l r
        | .difference => .diff l r
        | .symmetricDifference => .symmDiff l r)
    | _, _ => none

/-- The characters of several classes together. -/
def unionOfSets? (f : Flags) : List ClassSet → Option CharSet
  | [] => some .empty
  | set :: rest =>
    match set.set? f, unionOfSets? f rest with
    | some s, some r => some (.union s r)
    | _, _ => none

end

/-- A set as a pattern. Without the Unicode flag a set that reaches beyond ASCII could match half a
character and is refused. -/
def setPattern? (f : Flags) (s : CharSet) : Option Pattern :=
  if f.unicode || !s.reachesHighBytes then some (.set s) else none

/-! ## Patterns -/

/-- The question that an anchor asks. -/
def Anchor.assertion (f : Flags) : Anchor → Assertion
  | .caret => if f.multiLine then .startLine f.crlf else .startText
  | .dollar => if f.multiLine then .endLine f.crlf else .endText
  | .startText => .startText
  | .endText => .endText
  | .wordBoundary => .wordBoundary f.unicode
  | .notWordBoundary => .notWordBoundary f.unicode
  | .wordStart => .wordStart f.unicode
  | .wordEnd => .wordEnd f.unicode
  | .wordStartHalf => .wordStartHalf f.unicode
  | .wordEndHalf => .wordEndHalf f.unicode

/-- The characters that the dot matches. -/
def dotSet (f : Flags) : CharSet :=
  if f.dotAll then .all
  else if f.crlf then .compl (.union (.single '\n') (.single '\r'))
  else .compl (.single '\n')

mutual

/-- The meaning of a tree under some flags, with the flags in force after it. -/
def Ast.pattern? (f : Flags) : Ast → Option (Pattern × Flags)
  | .empty => some (.empty, f)
  | .flags changes => some (.empty, f.setAll changes)
  | .literal c hex =>
    if !f.unicode && hex && 0x80 ≤ c.toNat then none
    else
      let s := CharSet.single c
      some (.set (if f.unicode || c.toNat < 0x80 then foldSet f s else s), f)
  | .dot => (setPattern? f (dotSet f)).map (·, f)
  | .anchor a => some (.assert (a.assertion f), f)
  | .perl cls negated => (setPattern? f (signed negated (cls.set f.unicode))).map (·, f)
  | .property query negated =>
    if f.unicode then query.set?.map fun s => (.set (signed negated (foldSet f s)), f) else none
  | .bracketed set negated =>
    ((set.set? f).bind fun s => setPattern? f (signed negated (foldSet f s))).map (·, f)
  | .repetition body min max greedy =>
    (body.pattern? f).map fun (p, f) => (.rep p min max (greedy != f.swapGreed), f)
  | .group changes body => (body.pattern? (f.setAll changes)).map fun (p, _) => (p, f)
  | .alternation branches => altPattern? f branches
  | .concat parts => seqPattern? f parts

/-- The meaning of patterns that match one after the other. -/
def seqPattern? (f : Flags) : List Ast → Option (Pattern × Flags)
  | [] => some (.empty, f)
  | a :: rest =>
    match a.pattern? f with
    | none => none
    | some (p, f) => (seqPattern? f rest).map fun (q, f) => (.seq p q, f)

/-- The meaning of patterns of which one has to match. -/
def altPattern? (f : Flags) : List Ast → Option (Pattern × Flags)
  | [] => some (.set .empty, f)
  | [a] => a.pattern? f
  | a :: rest =>
    match a.pattern? f with
    | none => none
    | some (p, f) => (altPattern? f rest).map fun (q, f) => (.alt p q, f)

end

/-- The least number of characters of a match. -/
def Pattern.minLength : Pattern → Nat
  | .empty => 0
  | .set _ => 1
  | .assert _ => 0
  | .seq p q => p.minLength + q.minLength
  | .alt p q => min p.minLength q.minLength
  | .rep body least _ _ => least * body.minLength

/-- Whether no match has any characters. -/
def Pattern.isEmptyOnly : Pattern → Bool
  | .empty => true
  | .set _ => false
  | .assert _ => true
  | .seq p q => p.isEmptyOnly && q.isEmptyOnly
  | .alt p q => p.isEmptyOnly && q.isEmptyOnly
  | .rep body _ most _ => body.isEmptyOnly || most = some 0

/-- Whether every match starts at the start of the text. -/
def Pattern.isAnchored : Pattern → Bool
  | .assert .startText => true
  | .seq p q => p.isAnchored || (p.isEmptyOnly && q.isAnchored)
  | .alt p q => p.isAnchored && q.isAnchored
  | _ => false

/-! ## Size -/

/-- The number of states of an automaton for a set of characters in UTF-8. -/
def setStates (s : CharSet) : Nat :=
  if s.reachesHighBytes then 2 * s.spans + 2 else 1

/-- The number of states of an automaton for the pattern, repetitions written out. -/
def Pattern.states : Pattern → Nat
  | .empty => 1
  | .set s => setStates s
  | .assert _ => 1
  | .seq p q => p.states + q.states
  | .alt p q => p.states + q.states + 2
  | .rep body least most _ =>
    if body.isEmptyOnly then body.states + 2
    else match most with
      | some most => most * (body.states + 1) - least + 1
      | none => max least 1 * body.states + 3

/-- The number of states that a pattern may have. -/
def statesLimit : Nat := 327680

end PegMachine.Regex
