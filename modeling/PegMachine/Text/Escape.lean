/-!
# Escaped text

The text of a literal as it appears between double quotes in a message. Quotes, backslashes and
control characters get a backslash form; the characters from U+0080 to U+FFFF are written as
`\x` with two or `\u` with four digits in base sixteen; everything else stands for itself.
-/

namespace PegMachine.Text

/-- The digit that stands for a number below sixteen. -/
def hexDigit (n : Nat) : Char :=
  if n < 10 then Char.ofNat (48 + n) else Char.ofNat (55 + n)

/-- The last `width` digits of a number in base sixteen, with capital letters. -/
def hexDigits : Nat → Nat → List Char
  | 0, _ => []
  | width + 1, n => hexDigits width (n / 16) ++ [hexDigit (n % 16)]

/-- The written form of one character inside double quotes. -/
def escapeChar (c : Char) : List Char :=
  if c = '\\' then ['\\', '\\']
  else if c = '"' then ['\\', '"']
  else if c = '\x08' then ['\\', 'b']
  else if c = '\t' then ['\\', 't']
  else if c = '\n' then ['\\', 'n']
  else if c = '\x0C' then ['\\', 'f']
  else if c = '\r' then ['\\', 'r']
  else if c.toNat < 0x20 ∨ (0x80 ≤ c.toNat ∧ c.toNat ≤ 0xFF) then
    '\\' :: 'x' :: hexDigits 2 c.toNat
  else if 0xFF < c.toNat ∧ c.toNat ≤ 0xFFFF then '\\' :: 'u' :: hexDigits 4 c.toNat
  else [c]

/-- The written form of a text inside double quotes. -/
def escape (text : String) : String := String.ofList (text.toList.flatMap escapeChar)

/-- A text in double quotes. -/
def inQuotes (text : String) : String := "\"" ++ escape text ++ "\""

end PegMachine.Text
