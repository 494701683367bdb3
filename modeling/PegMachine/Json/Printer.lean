import PegMachine.Json.Basic

/-!
# Writing documents

The compact form has no blanks at all. The pretty form puts every item and member on a line of
its own, two blanks deeper than the bracket around it; an empty list or object stays on one line.
-/

namespace PegMachine.Json

/-- The digit that stands for a number below sixteen. -/
def lowerHexDigit (n : Nat) : Char :=
  if n < 10 then Char.ofNat (48 + n) else Char.ofNat (87 + n)

/-- The form of one character inside a string. -/
def stringChar (c : Char) : List Char :=
  if c = '"' then ['\\', '"']
  else if c = '\\' then ['\\', '\\']
  else if c = '\x08' then ['\\', 'b']
  else if c = '\t' then ['\\', 't']
  else if c = '\n' then ['\\', 'n']
  else if c = '\x0C' then ['\\', 'f']
  else if c = '\r' then ['\\', 'r']
  else if c.toNat < 0x20 then
    ['\\', 'u', '0', '0', lowerHexDigit (c.toNat / 16), lowerHexDigit (c.toNat % 16)]
  else [c]

/-- A text as a string of a document. -/
def stringText (s : String) : String :=
  String.ofList (['"'] ++ s.toList.flatMap stringChar ++ ['"'])

/-- The text of a number. -/
def Number.text : Number → String
  | .int n => toString n
  | .real text => text

mutual

/-- The compact form of a document. -/
def compact : Json → String
  | .null => "null"
  | .bool b => if b then "true" else "false"
  | .num n => n.text
  | .str s => stringText s
  | .arr items => "[" ++ compactItems items ++ "]"
  | .obj members => "\x7b" ++ compactMembers members ++ "\x7d"
  | .unfit inner => inner.compact
  | .cut => ""

/-- The compact forms of the items of a list, with commas between them. -/
def compactItems : List Json → String
  | [] => ""
  | [j] => j.compact
  | j :: rest => j.compact ++ "," ++ compactItems rest

/-- The compact forms of the members of an object, with commas between them. -/
def compactMembers : List (String × Json) → String
  | [] => ""
  | [(name, j)] => stringText name ++ ":" ++ j.compact
  | (name, j) :: rest => stringText name ++ ":" ++ j.compact ++ "," ++ compactMembers rest

end

/-- A line break and the blanks that open a line at the given depth. -/
def lineBreak (depth : Nat) : String := "\n" ++ String.ofList (List.replicate (2 * depth) ' ')

mutual

/-- The pretty form of a document inside `depth` brackets. -/
def prettyAt (depth : Nat) : Json → String
  | .arr [] => "[]"
  | .arr (j :: items) =>
    "[" ++ prettyItems (depth + 1) (j :: items) ++ lineBreak depth ++ "]"
  | .obj [] => "\x7b\x7d"
  | .obj (m :: members) =>
    "\x7b" ++ prettyMembers (depth + 1) (m :: members) ++ lineBreak depth ++ "\x7d"
  | .null => "null"
  | .bool b => if b then "true" else "false"
  | .num n => n.text
  | .str s => stringText s
  | .unfit inner => prettyAt depth inner
  | .cut => ""

/-- The pretty forms of the items of a list, each on a line of its own. -/
def prettyItems (depth : Nat) : List Json → String
  | [] => ""
  | [j] => lineBreak depth ++ prettyAt depth j
  | j :: rest => lineBreak depth ++ prettyAt depth j ++ "," ++ prettyItems depth rest

/-- The pretty forms of the members of an object, each on a line of its own. -/
def prettyMembers (depth : Nat) : List (String × Json) → String
  | [] => ""
  | [(name, j)] => lineBreak depth ++ stringText name ++ ": " ++ prettyAt depth j
  | (name, j) :: rest =>
    lineBreak depth ++ stringText name ++ ": " ++ prettyAt depth j ++ ","
      ++ prettyMembers depth rest

end

/-- The pretty form of a document. -/
def pretty (j : Json) : String := prettyAt 0 j

end PegMachine.Json
