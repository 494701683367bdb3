import PegMachine.Regex.Ast
import PegMachine.Unicode.Category
import PegMachine.Unicode.Property

/-!
# Reading patterns

The text of a regular expression as a tree. Reading fails on what is no pattern: unbalanced
brackets, repetition of nothing, unknown escapes, look-around, references to groups.

Readers take the text that is left and return what they read with the text left after it. Where
blanks are ignored they are skipped before every item. Fuel bounds the nesting of groups and
classes by the length of the text.
-/

namespace PegMachine.Regex

/-! ## Characters -/

/-- Characters with a meaning of their own, which a backslash takes away. -/
def isMeta (c : Char) : Bool := "\\.+*?()|[]\x7b\x7d^$#&-~".toList.contains c

/-- Whether a character may stand after a backslash for itself. -/
def isEscapable (c : Char) : Bool :=
  isMeta c || (c.toNat < 0x80 && !(c.isAlphanum || c = '<' || c = '>'))

/-- Skip blanks and comments. A comment reaches from its mark to the end of the line. -/
def skipBlanks (inComment : Bool) : List Char → List Char
  | [] => []
  | c :: cs =>
    if inComment then skipBlanks (c ≠ '\n') cs
    else if c = '#' then skipBlanks true cs
    else if Unicode.isWhiteSpace c then skipBlanks false cs
    else c :: cs

/-- Skip blanks and comments where they are ignored. -/
def skip (ignoreBlanks : Bool) (cs : List Char) : List Char :=
  if ignoreBlanks then skipBlanks false cs else cs

/-- The value of a digit in base sixteen. -/
def hexValue? (c : Char) : Option Nat :=
  if '0' ≤ c ∧ c ≤ '9' then some (c.toNat - 48)
  else if 'a' ≤ c ∧ c ≤ 'f' then some (c.toNat - 87)
  else if 'A' ≤ c ∧ c ≤ 'F' then some (c.toNat - 55)
  else none

/-- The character with a number, if there is one. -/
def charOf? (n : Nat) : Option Char := if n.isValidChar then some (Char.ofNat n) else none

/-! ## Escapes -/

/-- What a backslash and the characters after it stand for. -/
inductive Primitive where
  /-- A character; `hex` if it is written by its number. -/
  | literal (c : Char) (hex : Bool)
  /-- A place. -/
  | anchor (a : Anchor)
  /-- A class with a letter of its own, or all that is not in it. -/
  | perl (cls : PerlClass) (negated : Bool)
  /-- A class named by a property, or all that is not in it. -/
  | property (query : PropertyQuery) (negated : Bool)

/-- A number of exactly `n` digits in base sixteen. -/
def readHexDigits (blanks : Bool) : Nat → Nat → List Char → Option (Nat × List Char)
  | 0, value, cs => some (value, cs)
  | n + 1, value, c :: cs => do
    let d ← hexValue? c
    let cs := skip blanks cs
    if cs.isEmpty && n ≠ 0 then none
    readHexDigits blanks n (16 * value + d) cs
  | _ + 1, _, [] => none

/-- A number in base sixteen up to a closing brace. -/
def readHexBraced (blanks : Bool) : Nat → Option Nat → List Char → Option (Nat × List Char)
  | 0, _, _ => none
  | _, _, [] => none
  | fuel + 1, value, c :: cs =>
    if c = '\x7d' then value.map (·, cs)
    else do
      let d ← hexValue? c
      readHexBraced blanks fuel (some (16 * value.getD 0 + d)) (skip blanks cs)

/-- A character written by its number; `digits` is how many digits it has without braces. -/
def readHex (blanks : Bool) (digits : Nat) (cs : List Char) : Option (Primitive × List Char) := do
  let (n, rest) ← match skip blanks cs with
    | [] => none
    | '\x7b' :: rest => readHexBraced blanks (rest.length + 1) none (skip blanks rest)
    | rest => readHexDigits blanks digits 0 rest
  let c ← charOf? n
  return (.literal c true, rest)

/-- Split a text at the first place where some text occurs. -/
def splitAt? (mark : List Char) : List Char → Option (List Char × List Char)
  | [] => none
  | c :: cs =>
    if mark.isPrefixOf (c :: cs) then some ([], (c :: cs).drop mark.length)
    else (splitAt? mark cs).map fun (before, after) => (c :: before, after)

/-- The query that a text between braces spells out. -/
def queryOf (text : List Char) : PropertyQuery :=
  match splitAt? ['!', '='] text with
  | some (name, value) => .valued name value false
  | none =>
    match splitAt? [':'] text with
    | some (name, value) => .valued name value true
    | none =>
      match splitAt? ['='] text with
      | some (name, value) => .valued name value true
      | none => .named text

/-- The text up to a closing brace. -/
def readBraced (blanks : Bool) : Nat → List Char → List Char → Option (List Char × List Char)
  | 0, _, _ => none
  | _, _, [] => none
  | fuel + 1, done, c :: cs =>
    if c = '\x7d' then some (done.reverse, cs)
    else readBraced blanks fuel (c :: done) (skip blanks cs)

/-- A class named by a property, after its letter. -/
def readProperty (blanks negated : Bool) (cs : List Char) : Option (Primitive × List Char) :=
  match skip blanks cs with
  | [] => none
  | '\x7b' :: rest =>
    (readBraced blanks (rest.length + 1) [] (skip blanks rest)).map fun (text, rest) =>
      (.property (queryOf text) negated, rest)
  | '\\' :: _ => none
  | c :: rest => some (.property (.named [c]) negated, rest)

/-- The special boundaries of words, by name. -/
def boundaryOf? (name : List Char) : Option Anchor :=
  if name = "start".toList then some .wordStart
  else if name = "end".toList then some .wordEnd
  else if name = "start-half".toList then some .wordStartHalf
  else if name = "end-half".toList then some .wordEndHalf
  else none

/-- Whether a character may stand in the name of a special boundary. -/
def isBoundaryChar (c : Char) : Bool := c.isAlpha || c = '-'

/-- The name of a special boundary up to a closing brace. -/
def readBoundaryName (blanks : Bool) : Nat → List Char → List Char → Option (List Char × List Char)
  | 0, _, _ => none
  | _, _, [] => none
  | fuel + 1, done, c :: cs =>
    if c = '\x7d' then some (done.reverse, cs)
    else if isBoundaryChar c then readBoundaryName blanks fuel (c :: done) (skip blanks cs)
    else none

/-- A boundary of words, after its letter. -/
def readBoundary (blanks : Bool) (cs : List Char) : Option (Primitive × List Char) :=
  match cs with
  | '\x7b' :: inside =>
    match skip blanks inside with
    | [] => none
    | c :: rest =>
      if isBoundaryChar c then do
        let (name, rest) ← readBoundaryName blanks (rest.length + 2) [] (c :: rest)
        let a ← boundaryOf? name
        return (.anchor a, rest)
      else some (.anchor .wordBoundary, cs)
  | _ => some (.anchor .wordBoundary, cs)

/-- What the text after a backslash stands for. -/
def readEscape (blanks : Bool) : List Char → Option (Primitive × List Char)
  | [] => none
  | c :: cs =>
    if c.isDigit then none
    else if c = 'x' then readHex blanks 2 cs
    else if c = 'u' then readHex blanks 4 cs
    else if c = 'U' then readHex blanks 8 cs
    else if c = 'p' then readProperty blanks false cs
    else if c = 'P' then readProperty blanks true cs
    else if c = 'd' then some (.perl .digit false, cs)
    else if c = 'D' then some (.perl .digit true, cs)
    else if c = 's' then some (.perl .space false, cs)
    else if c = 'S' then some (.perl .space true, cs)
    else if c = 'w' then some (.perl .word false, cs)
    else if c = 'W' then some (.perl .word true, cs)
    else if isEscapable c then some (.literal c false, cs)
    else if c = 'a' then some (.literal '\x07' false, cs)
    else if c = 'f' then some (.literal '\x0C' false, cs)
    else if c = 't' then some (.literal '\t' false, cs)
    else if c = 'n' then some (.literal '\n' false, cs)
    else if c = 'r' then some (.literal '\r' false, cs)
    else if c = 'v' then some (.literal '\x0B' false, cs)
    else if c = 'A' then some (.anchor .startText, cs)
    else if c = 'z' then some (.anchor .endText, cs)
    else if c = 'b' then readBoundary blanks cs
    else if c = 'B' then some (.anchor .notWordBoundary, cs)
    else if c = '<' then some (.anchor .wordStart, cs)
    else if c = '>' then some (.anchor .wordEnd, cs)
    else none

/-! ## Classes -/

/-- The named classes of ASCII characters. -/
def asciiClasses : List (String × AsciiClass) :=
  [("alnum", .alnum), ("alpha", .alpha), ("ascii", .ascii), ("blank", .blank),
   ("cntrl", .cntrl), ("digit", .digit), ("graph", .graph), ("lower", .lower),
   ("print", .print), ("punct", .punct), ("space", .space), ("upper", .upper),
   ("word", .word), ("xdigit", .xdigit)]

/-- A named class of ASCII characters after its opening bracket, if that is what stands there. -/
def asciiClass? (cs : List Char) : Option (ClassSet × List Char) :=
  match cs with
  | ':' :: rest =>
    let (negated, rest) := match rest with
      | '^' :: r => (true, r)
      | r => (false, r)
    let name := rest.takeWhile (· ≠ ':')
    match rest.dropWhile (· ≠ ':') with
    | ':' :: ']' :: after =>
      (asciiClasses.find? (·.1 = String.ofList name)).map fun (_, cls) =>
        (.ascii cls negated, after)
    | _ => none
  | _ => none

/-- One end of a range, or an item of its own. -/
def readClassItem (blanks : Bool) : List Char → Option (Primitive × List Char)
  | [] => none
  | '\\' :: cs => readEscape blanks cs
  | c :: cs => some (.literal c false, cs)

/-- The set of an item that is not part of a range; anchors are none. -/
def itemSet? : Primitive → Option ClassSet
  | .literal c hex => some (.literal c hex)
  | .anchor _ => none
  | .perl cls negated => some (.perl cls negated)
  | .property query negated => some (.property query negated)

/-- The character of an item that is an end of a range. -/
def rangeEnd? : Primitive → Option Char
  | .literal c _ => some c
  | _ => none

/-- An item or a range of a class. -/
def readRange (blanks : Bool) (cs : List Char) : Option (ClassSet × List Char) := do
  let (first, rest) ← readClassItem blanks cs
  match skip blanks rest with
  | [] => none
  | '-' :: after =>
    match skip blanks after with
    | ']' :: _ => return (← itemSet? first, skip blanks rest)
    | '-' :: _ => return (← itemSet? first, skip blanks rest)
    | [] => none
    | after =>
      let (last, rest) ← readClassItem blanks after
      let lo ← rangeEnd? first
      let hi ← rangeEnd? last
      if lo ≤ hi then return (.range lo hi, rest) else none
  | rest => return (← itemSet? first, rest)

/-- The union of items, last one first; a single item stands for itself. -/
def unionOf : List ClassSet → ClassSet
  | [set] => set
  | sets => .union sets.reverse

/-- Close an operation whose left side and kind are pending. -/
def applyPending (pending : Option (ClassOp × ClassSet)) (right : ClassSet) : ClassSet :=
  match pending with
  | some (op, left) => .binary op left right
  | none => right

/-- Dashes at the start of a class stand for themselves. -/
def readDashes (blanks : Bool) :
    Nat → List ClassSet → List Char → Option (List ClassSet × List Char)
  | 0, _, _ => none
  | _, _, [] => none
  | fuel + 1, items, c :: cs =>
    if c = '-' then readDashes blanks fuel (.literal '-' false :: items) (skip blanks cs)
    else some (items, c :: cs)

/-- The opening of a class after its bracket: whether it is negated, and the characters that stand
for themselves only there. -/
def readClassOpen (blanks : Bool) (cs : List Char) :
    Option ((Bool × List ClassSet) × List Char) := do
  let cs := skip blanks cs
  let (negated, cs) := match cs with
    | '^' :: r => (true, skip blanks r)
    | r => (false, r)
  let (items, cs) ← readDashes blanks (cs.length + 1) [] cs
  match items, cs with
  | [], ']' :: rest =>
    let rest := skip blanks rest
    if rest.isEmpty then none else return ((negated, [.literal ']' false]), rest)
  | items, cs => return ((negated, items), cs)

/-- The content of a class up to its closing bracket. -/
def readClassBody (blanks : Bool) :
    Nat → Option (ClassOp × ClassSet) → List ClassSet → List Char → Option (ClassSet × List Char)
  | 0, _, _, _ => none
  | fuel + 1, pending, items, cs =>
    match skip blanks cs with
    | [] => none
    | '[' :: rest =>
      match asciiClass? rest with
      | some (set, rest) => readClassBody blanks fuel pending (set :: items) rest
      | none => do
        let ((negated, first), rest) ← readClassOpen blanks rest
        let (inner, rest) ← readClassBody blanks fuel none first rest
        readClassBody blanks fuel pending (.bracketed inner negated :: items) rest
    | ']' :: rest => some (applyPending pending (unionOf items), rest)
    | '&' :: '&' :: rest =>
      readClassBody blanks fuel (some (.intersection, applyPending pending (unionOf items))) []
        rest
    | '-' :: '-' :: rest =>
      readClassBody blanks fuel (some (.difference, applyPending pending (unionOf items))) [] rest
    | '~' :: '~' :: rest =>
      readClassBody blanks fuel
        (some (.symmetricDifference, applyPending pending (unionOf items))) [] rest
    | c :: rest => do
      let (item, rest) ← readRange blanks (c :: rest)
      readClassBody blanks fuel pending (item :: items) rest

/-- A class after its opening bracket. -/
def readClass (blanks : Bool) (cs : List Char) : Option (Ast × List Char) := do
  let ((negated, first), rest) ← readClassOpen blanks cs
  let (set, rest) ← readClassBody blanks (rest.length + 1) none first rest
  return (.bracketed set negated, rest)

/-! ## Repetition -/

/-- A count: digits with blanks around them, below 2^32. -/
def readCount (cs : List Char) : Option (Nat × List Char) :=
  let cs := cs.dropWhile Unicode.isWhiteSpace
  let digits := cs.takeWhile Char.isDigit
  let rest := (cs.dropWhile Char.isDigit).dropWhile Unicode.isWhiteSpace
  let n := digits.foldl (fun n c => 10 * n + (c.toNat - 48)) 0
  if digits.isEmpty || n ≥ 0x100000000 then none else some (n, rest)

/-- The bounds of a counted repetition after its opening brace. -/
def readBounds (blanks : Bool) (cs : List Char) : Option ((Nat × Option Nat) × List Char) := do
  let (min, rest) ← readCount (skip blanks cs)
  match rest with
  | '\x7d' :: rest => return ((min, some min), rest)
  | ',' :: rest =>
    match skip blanks rest with
    | '\x7d' :: rest => return ((min, none), rest)
    | rest =>
      let (max, rest) ← readCount rest
      match rest with
      | '\x7d' :: rest => if min ≤ max then return ((min, some max), rest) else none
      | _ => none
  | _ => none

/-- Whether a repetition is greedy, by the mark that may follow it. -/
def readGreed : List Char → Bool × List Char
  | '?' :: rest => (false, rest)
  | rest => (true, rest)

/-- Repeat the last item of a sequence, given last item first. -/
def repeatLast (min : Nat) (max : Option Nat) (greedy : Bool) : List Ast → Option (List Ast)
  | [] => none
  | .empty :: _ => none
  | .flags _ :: _ => none
  | a :: rest => some (.repetition a min max greedy :: rest)

/-! ## Groups -/

/-- The flag of a letter. -/
def flagOf? (c : Char) : Option Flag :=
  if c = 'i' then some .ignoreCase
  else if c = 'm' then some .multiLine
  else if c = 's' then some .dotAll
  else if c = 'U' then some .swapGreed
  else if c = 'u' then some .unicode
  else if c = 'R' then some .crlf
  else if c = 'x' then some .ignoreBlanks
  else none

/-- Flags up to the colon or parenthesis that ends them, which is part of what is left. `on` is
whether no minus sign was read yet, `dangling` whether one was read just now. -/
def readFlags (on dangling : Bool) (done : FlagSet) : List Char → Option (FlagSet × List Char)
  | [] => none
  | c :: cs =>
    if c = ':' || c = ')' then if dangling then none else some (done.reverse, c :: cs)
    else if c = '-' then
      if on then readFlags false true done cs else none
    else do
      let f ← flagOf? c
      if done.any (·.1 = f) then none else readFlags on false ((f, on) :: done) cs

/-- Whether a character may stand in the name of a group. -/
def isNameChar (first : Bool) (c : Char) : Bool :=
  c = '_' || Unicode.isAlphabetic c
    || (!first && (c = '.' || c = '[' || c = ']'
        || Unicode.Category.numbers.any (·.table.contains c)))

/-- The name of a group up to its closing angle bracket. -/
def readName (done : List Char) : List Char → Option (List Char × List Char)
  | [] => none
  | c :: cs =>
    if c = '>' then if done.isEmpty then none else some (done.reverse, cs)
    else if isNameChar done.isEmpty c then readName (c :: done) cs
    else none

/-- What follows an opening parenthesis. -/
inductive GroupOpen where
  /-- A group of its own, perhaps with a name. -/
  | capture (name : Option (List Char))
  /-- A group with flags. -/
  | flagged (flags : FlagSet)
  /-- Flags for the rest of the group around them. -/
  | setFlags (flags : FlagSet)

/-- The opening of a group after its parenthesis; look-around is refused. -/
def readGroupOpen (blanks : Bool) (cs : List Char) : Option (GroupOpen × List Char) :=
  match skip blanks cs with
  | '?' :: '=' :: _ => none
  | '?' :: '!' :: _ => none
  | '?' :: '<' :: '=' :: _ => none
  | '?' :: '<' :: '!' :: _ => none
  | '?' :: 'P' :: '<' :: rest => (readName [] rest).map fun (name, rest) => (.capture name, rest)
  | '?' :: '<' :: rest => (readName [] rest).map fun (name, rest) => (.capture name, rest)
  | '?' :: rest =>
    match readFlags true false [] rest with
    | some (flags, ')' :: rest) => if flags.isEmpty then none else some (.setFlags flags, rest)
    | some (flags, ':' :: rest) => some (.flagged flags, rest)
    | _ => none
  | rest => some (.capture none, rest)

/-- Whether blanks are ignored after some flags. -/
def blanksAfter (blanks : Bool) (flags : FlagSet) : Bool :=
  ((flags.find? (·.1 = .ignoreBlanks)).map (·.2)).getD blanks

/-- A sequence, given last item first. -/
def concatOf : List Ast → Ast
  | [] => .empty
  | [a] => a
  | parts => .concat parts.reverse

/-- Alternatives, given last one first; a single one stands for itself. -/
def alternationOf : List Ast → Ast
  | [a] => a
  | branches => .alternation branches.reverse

/-- What was read of a group so far. -/
structure GroupDraft where
  /-- Whether blanks are ignored. -/
  blanks : Bool
  /-- The names of all groups so far. -/
  names : List (List Char)
  /-- The finished alternatives, last one first. -/
  branches : List Ast
  /-- The items of the current alternative, last one first. -/
  parts : List Ast

/-- One more item. -/
def GroupDraft.push (d : GroupDraft) (a : Ast) : GroupDraft := { d with parts := a :: d.parts }

/-- Repeat the last item, reluctantly if a question mark follows. -/
def GroupDraft.repeated? (d : GroupDraft) (min : Nat) (max : Option Nat) (rest : List Char) :
    Option (GroupDraft × List Char) := do
  let (greedy, rest) := readGreed rest
  let parts ← repeatLast min max greedy d.parts
  return ({ d with parts }, rest)

/-- The item of an escape. -/
def Primitive.ast : Primitive → Ast
  | .literal c hex => .literal c hex
  | .anchor a => .anchor a
  | .perl cls negated => .perl cls negated
  | .property query negated => .property query negated

/-- What reading a group gives: its pattern and the names of all groups so far. -/
structure GroupRead where
  /-- The pattern. -/
  ast : Ast
  /-- The names of all groups so far. -/
  names : List (List Char)
  /-- Whether the group ended with a parenthesis and not with the text. -/
  closed : Bool

/-- The content of a group up to its closing parenthesis or the end of the text. -/
def readGroup : Nat → GroupDraft → List Char → Option (GroupRead × List Char)
  | 0, _, _ => none
  | fuel + 1, d, cs =>
    match skip d.blanks cs with
    | [] => some (⟨alternationOf (concatOf d.parts :: d.branches), d.names, false⟩, [])
    | '(' :: rest =>
      match readGroupOpen d.blanks rest with
      | none => none
      | some (.setFlags flags, rest) =>
        readGroup fuel { d.push (.flags flags) with blanks := blanksAfter d.blanks flags } rest
      | some (.flagged flags, rest) =>
        match readGroup fuel ⟨blanksAfter d.blanks flags, d.names, [], []⟩ rest with
        | some (⟨body, names, true⟩, rest) =>
          readGroup fuel { d.push (.group flags body) with names } rest
        | _ => none
      | some (.capture name, rest) =>
        if name.any d.names.contains then none
        else
          match readGroup fuel ⟨d.blanks, name.toList ++ d.names, [], []⟩ rest with
          | some (⟨body, names, true⟩, rest) =>
            readGroup fuel { d.push (.group [] body) with names } rest
          | _ => none
    | ')' :: rest =>
      some (⟨alternationOf (concatOf d.parts :: d.branches), d.names, true⟩, rest)
    | '|' :: rest =>
      readGroup fuel { d with branches := concatOf d.parts :: d.branches, parts := [] } rest
    | '[' :: rest => do
      let (a, rest) ← readClass d.blanks rest
      readGroup fuel (d.push a) rest
    | '?' :: rest => do
      let (d, rest) ← d.repeated? 0 (some 1) rest
      readGroup fuel d rest
    | '*' :: rest => do
      let (d, rest) ← d.repeated? 0 none rest
      readGroup fuel d rest
    | '+' :: rest => do
      let (d, rest) ← d.repeated? 1 none rest
      readGroup fuel d rest
    | '\x7b' :: rest => do
      let ((min, max), rest) ← readBounds d.blanks rest
      let (d, rest) ← d.repeated? min max rest
      readGroup fuel d rest
    | '\\' :: rest => do
      let (p, rest) ← readEscape d.blanks rest
      readGroup fuel (d.push p.ast) rest
    | '.' :: rest => readGroup fuel (d.push .dot) rest
    | '^' :: rest => readGroup fuel (d.push (.anchor .caret)) rest
    | '$' :: rest => readGroup fuel (d.push (.anchor .dollar)) rest
    | c :: rest => readGroup fuel (d.push (.literal c false)) rest

/-- The tree of a pattern, if the text is one. -/
def parse? (pattern : List Char) : Option Ast :=
  match readGroup (pattern.length + 1) ⟨false, [], [], []⟩ pattern with
  | some (⟨ast, _, false⟩, _) => if ast.depth ≤ depthLimit then some ast else none
  | _ => none

end PegMachine.Regex
