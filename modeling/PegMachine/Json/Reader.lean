import PegMachine.Json.Basic

/-!
# Reading documents

`Json.read` turns a text into a document. It never fails: where the text stops being JSON it puts
`cut` and gives up, so that everything read before that place is still there to be looked at.

The readers return what is left of the text, or nothing once it cannot be read further. Fuel is
the length of the text, which no reader uses up.
-/

namespace PegMachine.Json

/-- How many lists and objects may be open inside each other. -/
def depthLimit : Nat := 127

/-- What is left of a text after its leading blanks. -/
def skipBlanks (text : List Char) : List Char :=
  text.dropWhile fun c => c = ' ' || c = '\n' || c = '\t' || c = '\r'

/-! ## Strings -/

/-- The value of a digit in base sixteen. -/
def hexValue? (c : Char) : Option Nat :=
  if '0' ≤ c ∧ c ≤ '9' then some (c.toNat - 48)
  else if 'a' ≤ c ∧ c ≤ 'f' then some (c.toNat - 87)
  else if 'A' ≤ c ∧ c ≤ 'F' then some (c.toNat - 55)
  else none

/-- The number written by the four digits at the start of a text. -/
def hexUnit? : List Char → Option (Nat × List Char)
  | a :: b :: c :: d :: rest => do
    let a ← hexValue? a
    let b ← hexValue? b
    let c ← hexValue? c
    let d ← hexValue? d
    return (((a * 16 + b) * 16 + c) * 16 + d, rest)
  | _ => none

/-- The character of a short escape. -/
def shortEscape? (c : Char) : Option Char :=
  if c = '"' then some '"'
  else if c = '\\' then some '\\'
  else if c = '/' then some '/'
  else if c = 'b' then some '\x08'
  else if c = 'f' then some '\x0C'
  else if c = 'n' then some '\n'
  else if c = 'r' then some '\r'
  else if c = 't' then some '\t'
  else none

/-- The characters of a string whose opening quote is read. Half of a surrogate pair is no
character: it makes the string unfit for use, though it still can be skipped. -/
def readChars : Nat → List Char → Bool → List Char → Option (List Char × Bool × List Char)
  | 0, _, _, _ => none
  | _, _, _, [] => none
  | fuel + 1, done, fit, c :: rest =>
    if c = '"' then some (done.reverse, fit, rest)
    else if c = '\\' then
      match rest with
      | 'u' :: rest =>
        match hexUnit? rest with
        | none => none
        | some (unit, rest) =>
          if 0xD800 ≤ unit ∧ unit ≤ 0xDBFF then
            match rest with
            | '\\' :: 'u' :: low =>
              match hexUnit? low with
              | none => none
              | some (second, after) =>
                if 0xDC00 ≤ second ∧ second ≤ 0xDFFF then
                  let code := 0x10000 + (unit - 0xD800) * 0x400 + (second - 0xDC00)
                  readChars fuel (Char.ofNat code :: done) fit after
                else readChars fuel done false rest
            | _ => readChars fuel done false rest
          else if 0xDC00 ≤ unit ∧ unit ≤ 0xDFFF then readChars fuel done false rest
          else readChars fuel (Char.ofNat unit :: done) fit rest
      | e :: rest =>
        match shortEscape? e with
        | some c => readChars fuel (c :: done) fit rest
        | none => none
      | [] => none
    else if c.toNat < 0x20 then none
    else readChars fuel (c :: done) fit rest

/-! ## Numbers -/

/-- Whether a character is a decimal digit. -/
def isDigit (c : Char) : Bool := '0' ≤ c && c ≤ '9'

/-- The number that decimal digits write. -/
def digitsValue (digits : List Char) : Nat :=
  digits.foldl (fun n c => 10 * n + (c.toNat - 48)) 0

/-- Whether a decimal number is too large for the range of floating-point numbers. The exponent
is compared first, so that no huge power is computed. -/
def isHuge (digits : List Char) (exponent : Int) : Bool :=
  let significant := digits.dropWhile (· = '0')
  let magnitude : Int := significant.length + exponent
  if significant.isEmpty then false
  else if magnitude < 309 then false
  else if magnitude > 309 then true
  else
    let value := digitsValue significant
    let bound := 0x3FFFFFFFFFFFFF <<< 970
    if 0 ≤ exponent then bound ≤ value * Nat.pow 10 exponent.toNat
    else bound * Nat.pow 10 (-exponent).toNat ≤ value

/-- The document of a number given by its parts. -/
def numberOf (negative : Bool) (whole fraction : List Char) (exponent : Option Int)
    (text : String) : Json :=
  if fraction.isEmpty && exponent.isNone then
    let n := digitsValue whole
    if negative then
      if 0 < n ∧ n ≤ 0x8000000000000000 then .num (.int (-n)) else
        if isHuge whole 0 then .unfit .null else .num (.real text)
    else if n < 0x10000000000000000 then .num (.int n)
    else if isHuge whole 0 then .unfit .null
    else .num (.real text)
  else if isHuge (whole ++ fraction) (exponent.getD 0 - fraction.length) then .unfit .null
  else .num (.real text)

/-- The exponent at the start of a text, if there is one; nothing when it has no digits. -/
def readExponent? (text : List Char) : Option (Option Int × List Char) :=
  match text with
  | c :: rest =>
    if c = 'e' || c = 'E' then
      let (negative, rest) := match rest with
        | '-' :: r => (true, r)
        | '+' :: r => (false, r)
        | r => (false, r)
      let digits := rest.takeWhile isDigit
      if digits.isEmpty then none
      else
        let n : Int := digitsValue digits
        some (some (if negative then -n else n), rest.dropWhile isDigit)
    else some (none, text)
  | [] => some (none, text)

/-- The number at the start of a text. -/
def readNumber? (text : List Char) : Option (Json × List Char) := do
  let (negative, unsigned) := match text with
    | '-' :: r => (true, r)
    | r => (false, r)
  let whole := unsigned.takeWhile isDigit
  let rest := unsigned.dropWhile isDigit
  if whole.isEmpty || (whole.length > 1 && whole.head? = some '0') then none
  let (fraction, rest) ← match rest with
    | '.' :: r =>
      let digits := r.takeWhile isDigit
      if digits.isEmpty then none else some (digits, r.dropWhile isDigit)
    | r => some ([], r)
  let (exponent, rest) ← readExponent? rest
  let read := String.ofList (text.take (text.length - rest.length))
  return (numberOf negative whole fraction exponent read, rest)

/-! ## Documents -/

/-- Mark a list or an object that is nested too deeply. -/
def atDepth (room : Nat) (j : Json) : Json := if room = 0 then .unfit j else j

/-- What is left after a word, if the text starts with it. -/
def afterWord? (word : String) (text : List Char) : Option (List Char) :=
  if word.toList.isPrefixOf text then some (text.drop word.length) else none

mutual

/-- The document at the start of a text, inside brackets that leave `room` for more. -/
def readValue (fuel room : Nat) (text : List Char) : Json × Option (List Char) :=
  match fuel with
  | 0 => (.cut, none)
  | fuel + 1 =>
    match skipBlanks text with
    | [] => (.cut, none)
    | 'n' :: rest => orCut .null (afterWord? "ull" rest)
    | 't' :: rest => orCut (.bool true) (afterWord? "rue" rest)
    | 'f' :: rest => orCut (.bool false) (afterWord? "alse" rest)
    | '"' :: rest =>
      match readChars (rest.length + 1) [] true rest with
      | some (chars, true, rest) => (.str (String.ofList chars), some rest)
      | some (_, false, rest) => (.unfit .null, some rest)
      | none => (.cut, none)
    | '[' :: rest =>
      match skipBlanks rest with
      | ']' :: rest => (atDepth room (.arr []), some rest)
      | rest =>
        let (items, rest) := readItems fuel (room - 1) rest
        (atDepth room (.arr items), rest)
    | '\x7b' :: rest =>
      match skipBlanks rest with
      | '\x7d' :: rest => (atDepth room (.obj []), some rest)
      | rest =>
        let (members, rest) := readMembers fuel (room - 1) rest
        (atDepth room (.obj members), rest)
    | c :: rest =>
      if c = '-' || isDigit c then
        match readNumber? (c :: rest) with
        | some (j, rest) => (j, some rest)
        | none => (.cut, none)
      else (.cut, none)
where
  /-- The document, unless the text cannot be read further. -/
  orCut (j : Json) : Option (List Char) → Json × Option (List Char)
    | some rest => (j, some rest)
    | none => (.cut, none)

/-- The items of a list up to its closing bracket. -/
def readItems (fuel room : Nat) (text : List Char) : List Json × Option (List Char) :=
  match fuel with
  | 0 => ([.cut], none)
  | fuel + 1 =>
    match readValue fuel room text with
    | (j, none) => ([j], none)
    | (j, some rest) =>
      match skipBlanks rest with
      | ']' :: rest => ([j], some rest)
      | ',' :: rest =>
        let (items, rest) := readItems fuel room rest
        (j :: items, rest)
      | _ => ([j, .cut], none)

/-- The members of an object up to its closing bracket. -/
def readMembers (fuel room : Nat) (text : List Char) :
    List (String × Json) × Option (List Char) :=
  match fuel with
  | 0 => ([("", .cut)], none)
  | fuel + 1 =>
    match skipBlanks text with
    | '"' :: rest =>
      match readChars (rest.length + 1) [] true rest with
      | some (chars, true, rest) =>
        let name := String.ofList chars
        match skipBlanks rest with
        | ':' :: rest =>
          match readValue fuel room rest with
          | (j, none) => ([(name, j)], none)
          | (j, some rest) =>
            match skipBlanks rest with
            | '\x7d' :: rest => ([(name, j)], some rest)
            | ',' :: rest =>
              let (members, rest) := readMembers fuel room rest
              ((name, j) :: members, rest)
            | _ => ([(name, j), ("", .cut)], none)
        | _ => ([(name, .cut)], none)
      | _ => ([("", .cut)], none)
    | _ => ([("", .cut)], none)

end

/-- A text that was read: its document and whether only blanks follow it. -/
structure Reading where
  /-- The document. -/
  root : Json
  /-- Whether the text ends with the document. -/
  ends : Bool

/-- Read a text as a document. -/
def read (text : String) : Reading :=
  match readValue (2 * text.length + 2) depthLimit text.toList with
  | (root, some rest) => ⟨root, (skipBlanks rest).isEmpty⟩
  | (root, none) => ⟨root, false⟩

end PegMachine.Json
