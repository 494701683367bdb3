import PegMachine.Json.Decode

/-!
# Positions and locations

A position is a byte offset together with the line and the column it stands for; lines and columns
count from one, columns count characters. A location is a pair of positions.
-/

namespace PegMachine

/-- A place in a text. -/
structure Position where
  /-- Bytes before the place. -/
  offset : Nat
  /-- Line number, from one. -/
  line : Nat
  /-- Column number, from one, in characters. -/
  column : Nat
  deriving DecidableEq, Repr, Inhabited

namespace Position

/-- The place before all text. -/
def start : Position := ⟨0, 1, 1⟩

/-- A position as it is named in messages. -/
def describe (p : Position) : String := s!"line {p.line}, column {p.column}"

/-- The document of a position. -/
def toJson (p : Position) : Json :=
  .obj [("offset", .nat p.offset), ("line", .nat p.line), ("column", .nat p.column)]

/-- Positions are records of three numbers. -/
def decode : Json.Decoder Position := fun m j => do
  let r ← Json.Decode.record ["offset", "line", "column"] m j
  let offset := r.required "offset" Json.Decode.count
  let line := r.required "line" Json.Decode.count
  let column := r.required "column" Json.Decode.count
  r.settle [("offset", r.outcome offset), ("line", r.outcome line), ("column", r.outcome column)]
  return ⟨← offset, ← line, ← column⟩

end Position

/-- A stretch of text. -/
structure Location where
  /-- Where it starts. -/
  start : Position
  /-- Where it ends. -/
  stop : Position
  deriving DecidableEq, Repr, Inhabited

namespace Location

/-- The empty stretch before all text. -/
def atStart : Location := ⟨.start, .start⟩

/-- A location as it is named in messages: by its start. -/
def describe (l : Location) : String := l.start.describe

/-- The document of a location. -/
def toJson (l : Location) : Json := .obj [("start", l.start.toJson), ("end", l.stop.toJson)]

/-- Locations are records of two positions. -/
def decode : Json.Decoder Location := fun m j => do
  let r ← Json.Decode.record ["start", "end"] m j
  let start := r.required "start" Position.decode
  let stop := r.required "end" Position.decode
  r.settle [("start", r.outcome start), ("end", r.outcome stop)]
  return ⟨← start, ← stop⟩

end Location

end PegMachine
