/-!
# Inputs

The text that a parser reads. Offsets into it count bytes of its UTF-8 form, so not every offset
is the place of a character. An input keeps, for each offset, the text that starts there; the
offsets that have one are the character boundaries.
-/

namespace PegMachine

namespace Text

/-- The number of bytes of a text in UTF-8. -/
def byteSize : List Char → Nat
  | [] => 0
  | c :: cs => c.utf8Size + byteSize cs

@[simp] theorem byteSize_append (a b : List Char) :
    byteSize (a ++ b) = byteSize a + byteSize b := by
  induction a with
  | nil => simp [byteSize]
  | cons c cs ih => simp [byteSize, ih, Nat.add_assoc]

/-- The rests of a text by byte offset, up to and including the empty rest at its end. -/
def restsByByte : List Char → List (Option (List Char))
  | [] => [some []]
  | c :: cs => some (c :: cs) :: (List.replicate (c.utf8Size - 1) none ++ restsByByte cs)

/-- There is a place for every offset from the start to the end. -/
theorem length_restsByByte (text : List Char) :
    (restsByByte text).length = byteSize text + 1 := by
  induction text with
  | nil => rfl
  | cons c cs ih =>
    have := c.utf8Size_pos
    simp only [restsByByte, byteSize, List.length_cons, List.length_append, List.length_replicate,
      ih]
    omega

/-- The characters of a text that start within its first `n` bytes. -/
def takeBytes : Nat → List Char → List Char
  | _, [] => []
  | n, c :: cs => if n = 0 then [] else c :: takeBytes (n - c.utf8Size) cs

end Text

/-- A text that can be entered at any byte offset. -/
structure Input where
  /-- The characters of the text. -/
  chars : List Char
  /-- The number of bytes of the text. -/
  size : Nat := Text.byteSize chars
  /-- The rest of the text at each offset that is a character boundary. -/
  rests : Array (Option (List Char)) := (Text.restsByByte chars).toArray
  /-- The size is that of the text. -/
  size_eq : size = Text.byteSize chars := by rfl
  /-- The rests are those of the text. -/
  rests_eq : rests = (Text.restsByByte chars).toArray := by rfl

namespace Input

/-- The input with the given characters. -/
def ofChars (chars : List Char) : Input where
  chars := chars

/-- The input with the given text. -/
def ofString (text : String) : Input := ofChars text.toList

/-- The text from an offset on, if the offset is a character boundary. -/
def rest? (input : Input) (offset : Nat) : Option (List Char) := (input.rests[offset]?).join

/-- The whole text starts at offset zero. -/
theorem rest?_zero (input : Input) : input.rest? 0 = some input.chars := by
  rw [rest?, input.rests_eq]
  cases input.chars <;> rfl

/-- The text from an offset on; empty when the offset is no character boundary. -/
def rest (input : Input) (offset : Nat) : List Char := (input.rest? offset).getD []

/-- Whether an offset is a character boundary of the input. -/
def isBoundary (input : Input) (offset : Nat) : Bool := (input.rest? offset).isSome

/-- The text between two offsets, if both are character boundaries in order. -/
def slice? (input : Input) (start stop : Nat) : Option (List Char) :=
  if start ≤ stop && input.isBoundary stop then
    (input.rest? start).map (Text.takeBytes (stop - start))
  else none

/-- The text between two offsets; empty when there is none. -/
def slice (input : Input) (start stop : Nat) : String :=
  String.ofList ((input.slice? start stop).getD [])

end Input

end PegMachine
