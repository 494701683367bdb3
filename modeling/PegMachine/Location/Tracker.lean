import PegMachine.Input
import PegMachine.Location

/-!
# Finding positions

Line and column of a byte offset. A line ends with a line feed, a carriage return, the two
together, a line separator or a paragraph separator.

`Tracker` remembers how far it has read, so that offsets asked for in rising order are found in one
pass. It reads bytes, and leaps from one byte that may end a line to the next: a line feed, a
carriage return, or the byte that both separators begin with, as other characters do. Of the bytes
in between it only counts those that characters begin with, so a character counts from its first
byte on. A carriage return that was read last is remembered, since a line feed may follow it.
-/

namespace PegMachine

namespace Text

/-- The bytes of a text in UTF-8. -/
def bytes (text : List Char) : List UInt8 := text.flatMap String.utf8EncodeChar

/-- Whether a byte is the first one of a character. -/
def isLead (b : UInt8) : Bool := b &&& 0xC0 != 0x80

/-- The number of bytes of a character with a first byte. -/
def charSize (lead : UInt8) : Nat :=
  if lead < 0x80 then 1 else if lead < 0xE0 then 2 else if lead < 0xF0 then 3 else 4

/-- Whether a line may end with the character that begins with a byte. -/
def mayEndLine (b : UInt8) : Bool := b == 0x0A || b == 0x0D || b == 0xE2

end Text

/-- The line and column reached after some text. -/
structure Mark where
  /-- Line number, from one. -/
  line : Nat
  /-- Column number, from one. -/
  column : Nat
  /-- Whether the text so far ends with a carriage return. -/
  afterReturn : Bool
  deriving DecidableEq, Repr

namespace Mark

/-- The mark before all text. -/
def start : Mark := ⟨1, 1, false⟩

/-- The mark after a line feed; together with a carriage return it ends one line. -/
def lineFeed (m : Mark) : Mark := ⟨if m.afterReturn then m.line else m.line + 1, 1, false⟩

/-- The mark after a carriage return. -/
def carriageReturn (m : Mark) : Mark := ⟨m.line + 1, 1, true⟩

/-- The mark after a separator. -/
def separator (m : Mark) : Mark := ⟨m.line + 1, 1, false⟩

/-- The mark after characters that end no line, given how many. -/
def along (m : Mark) (count : Nat) : Mark := ⟨m.line, m.column + count, false⟩

/-- The mark after bytes that begin no line end. -/
def skip (m : Mark) (bytes : List UInt8) : Mark := m.along (bytes.countP Text.isLead)

/-- The mark after the character that begins with a byte with which a line may end, given the bytes
from there on. -/
def pass (m : Mark) (b : UInt8) (tail : List UInt8) : Mark :=
  if b = 0x0A then m.lineFeed
  else if b = 0x0D then m.carriageReturn
  else if (Text.bytes ['\u2028']).isPrefixOf tail || (Text.bytes ['\u2029']).isPrefixOf tail then
    m.separator
  else m.along 1

/-- The mark after some bytes, given these and all bytes from the same offset on, in at most so
many leaps. -/
def read : Nat → (part tail : List UInt8) → Mark → Mark
  | 0, _, _, m => m
  | leaps + 1, part, tail, m =>
    if part.isEmpty then m
    else
      match part.findIdx? Text.mayEndLine with
      | none => m.skip part
      | some i =>
        let m := if 0 < i then m.skip (part.take i) else m
        let tail := tail.drop i
        match tail with
        | [] => m
        | b :: _ =>
          let n := Text.charSize b
          read leaps (part.drop (i + n)) (tail.drop n) (m.pass b tail)

end Mark

/-- How far an input has been read in search of positions. -/
structure Tracker where
  /-- All bytes of the input. -/
  bytes : List UInt8
  /-- The number of bytes of the input. -/
  size : Nat
  /-- The last offset asked for. -/
  offset : Nat
  /-- The bytes from there on. -/
  rest : List UInt8
  /-- The mark there. -/
  mark : Mark

namespace Tracker

/-- A tracker that has read nothing. -/
def ofInput (input : Input) : Tracker where
  bytes := Text.bytes input.chars
  size := input.size
  offset := 0
  rest := Text.bytes input.chars
  mark := .start

/-- The tracker as it was before it read anything. -/
def rewind (t : Tracker) : Tracker := { t with offset := 0, rest := t.bytes, mark := .start }

/-- The position of an offset; an offset past the end stands for the end. -/
def position (t : Tracker) (offset : Nat) : Position × Tracker :=
  let offset := min offset t.size
  let t := if offset < t.offset then t.rewind else t
  let n := offset - t.offset
  let mark := t.mark.read n (t.rest.take n) t.rest
  (⟨offset, mark.line, mark.column⟩, { t with offset, rest := t.rest.drop n, mark })

/-- The location between two offsets. -/
def location (t : Tracker) (start stop : Nat) : Location × Tracker :=
  let (first, t) := t.position start
  let (last, t) := t.position stop
  (⟨first, last⟩, t)

end Tracker

/-- The position of an offset, from scratch. -/
def Position.ofOffset (input : Input) (offset : Nat) : Position :=
  ((Tracker.ofInput input).position offset).1

/-- The location between two offsets, from scratch. -/
def Location.ofRange (input : Input) (start stop : Nat) : Location :=
  ((Tracker.ofInput input).location start stop).1

end PegMachine
