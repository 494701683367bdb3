import PegMachine.Unicode.Category
import PegMachine.Unicode.Property

/-!
# Quoted text

A text as a string literal of program source: in double quotes, with a backslash form for quotes,
backslashes, the usual control characters and whatever has no shape of its own on paper. The
latter is written as `\u` with its code point between braces, in as few digits as it takes.
-/

namespace PegMachine.Text

/-- The digits of a number in base sixteen, with small letters and without leading zeros. -/
def codePointDigits (n : Nat) : List Char := Nat.toDigits 16 n

/-- The form of a character by its code point. -/
def codePointForm (c : Char) : List Char :=
  ['\\', 'u', '\x7b'] ++ codePointDigits c.toNat ++ ['\x7d']

/-- The form of one character inside a string literal. -/
def quoteChar (c : Char) : List Char :=
  if c = '\x00' then ['\\', '0']
  else if c = '\t' then ['\\', 't']
  else if c = '\r' then ['\\', 'r']
  else if c = '\n' then ['\\', 'n']
  else if c = '\\' then ['\\', '\\']
  else if c = '"' then ['\\', '"']
  else if 0x20 ≤ c.toNat ∧ c.toNat < 0x7F then [c]
  else if Unicode.isGraphemeExtend c then codePointForm c
  else if Unicode.isPrintable c then [c]
  else codePointForm c

/-- A text as a string literal. -/
def quote (text : String) : String :=
  String.ofList (['"'] ++ text.toList.flatMap quoteChar ++ ['"'])

end PegMachine.Text
