import PegMachine.Json.Reader

/-!
# Decoding documents

A decoder turns a document into a value of the domain. It can fail in two ways: the text is not
JSON, or it is JSON of the wrong shape. Which of the two is reported is a matter of order: a
decoder walks the document as it is written and stops at the first thing it cannot accept.

Some parts of a document are decoded as they are read, others only once they have been read to
their end (when their shape depends on a later member). The mode says which; it matters in three
places only: surplus items, tags that are no strings, and tags given by number.
-/

namespace PegMachine.Json

/-- Why a text could not be decoded. -/
inductive Fault where
  /-- The text is not JSON. -/
  | malformed
  /-- The text is JSON, but of the wrong shape. -/
  | mismatch
  deriving DecidableEq, Repr, Inhabited

/-- Whether a part is decoded while it is read or after it has been read to its end. -/
inductive Mode where
  /-- Decoded while it is read. -/
  | streamed
  /-- Decoded after it has been read. -/
  | held
  deriving DecidableEq, Repr

/-- A decoder for values of a type. -/
abbrev Decoder (α : Type) := Mode → Json → Except Fault α

namespace Decode

/-- The fault of a document met where something else was expected. -/
def unexpected : Json → Fault
  | .cut => .malformed
  | .unfit (.arr _) => .mismatch
  | .unfit (.obj _) => .mismatch
  | .unfit _ => .malformed
  | _ => .mismatch

/-- The fault of a document met where a list or an object was expected. -/
def unexpectedInside : Json → Fault
  | .cut => .malformed
  | .unfit _ => .malformed
  | _ => .mismatch

/-- A text. -/
def string : Decoder String
  | _, .str s => .ok s
  | _, j => .error (unexpected j)

/-- A text of one character. -/
def char : Decoder Char
  | _, .str s =>
    match s.toList with
    | [c] => .ok c
    | _ => .error .mismatch
  | _, j => .error (unexpected j)

/-- A truth value. -/
def bool : Decoder Bool
  | _, .bool b => .ok b
  | _, j => .error (unexpected j)

/-- A whole number between two bounds. -/
def integer (lo hi : Int) : Decoder Int
  | _, .num (.int n) => if lo ≤ n ∧ n ≤ hi then .ok n else .error .mismatch
  | _, j => .error (unexpected j)

/-- A number of 32 bits without sign. -/
def word : Decoder UInt32
  | _, .num (.int n) =>
    if 0 ≤ n ∧ n < 0x100000000 then .ok (UInt32.ofNat n.toNat) else .error .mismatch
  | _, j => .error (unexpected j)

/-- An index or a count. -/
def count : Decoder Nat
  | _, .num (.int n) => if 0 ≤ n ∧ n < 0x10000000000000000 then .ok n.toNat else .error .mismatch
  | _, j => .error (unexpected j)

/-- A number of 64 bits with sign. -/
def int64 : Decoder Int64
  | _, .num (.int n) =>
    if -0x8000000000000000 ≤ n ∧ n < 0x8000000000000000 then .ok (Int64.ofInt n) else .error .mismatch
  | _, j => .error (unexpected j)

/-- A value, or `null` for none. -/
def option {α : Type} (d : Decoder α) : Decoder (Option α)
  | _, .null => .ok none
  | m, j => (d m j).map some

/-- The values of a list, first fault first. -/
def each {α : Type} (d : Json → Except Fault α) : List Json → Except Fault (List α)
  | [] => .ok []
  | j :: rest => do
    let a ← d j
    let as ← each d rest
    return a :: as

/-- A list of values. -/
def list {α : Type} (d : Decoder α) : Decoder (List α)
  | m, .arr items => each (d m) items
  | _, j => .error (unexpectedInside j)

/-- The fault of a list with more items than it should have. -/
def surplus : Mode → Fault
  | .streamed => .malformed
  | .held => .mismatch

/-- A list of exactly two values. -/
def pair {α β : Type} (d : Decoder α) (e : Decoder β) : Decoder (α × β)
  | m, .arr (x :: y :: rest) => do
    let a ← d m x
    let b ← e m y
    if rest.isEmpty then return (a, b) else throw (surplus m)
  | m, .arr [x] => do
    let _ ← d m x
    throw .mismatch
  | _, .arr [] => .error .mismatch
  | _, j => .error (unexpectedInside j)

/-- One of several words. A word may also be written as an object with the word as its only
member, whose value is `null`. -/
def tag {α : Type} (named : String → Option α) : Decoder α
  | _, .str s => (named s).elim (.error .mismatch) .ok
  | m, .obj [(name, inner)] =>
    match named name with
    | none => .error .mismatch
    | some a =>
      match m, inner with
      | _, .null => .ok a
      | _, inner => .error (unexpected inner)
  | .held, .obj _ => .error .mismatch
  | .streamed, .obj ((name, inner) :: _) =>
    match named name with
    | none => .error .mismatch
    | some _ => .error (if inner matches .null then .malformed else unexpected inner)
  | .streamed, _ => .error .malformed
  | .held, j => .error (unexpectedInside j)

/-- A document that is read to its end before it is looked at. -/
def hold : Mode → Json → Except Fault Json
  | .held, j => .ok j
  | .streamed, j => if j.isUsable then .ok j else .error .malformed

/-- A document that is read and forgotten. -/
def skip (j : Json) : Except Fault Unit := if j.isWhole then .ok () else .error .malformed

/-! ## Records -/

/-- A document that describes a record: members by name, or the fields in their order. -/
structure Record where
  /-- How the record is decoded. -/
  mode : Mode
  /-- Whether the fields are given by their order. -/
  positional : Bool
  /-- The fields in document order. -/
  members : List (String × Json)
  /-- Whether there are more items than fields. -/
  surplus : Bool

/-- The record that a document describes, given the names of its fields. -/
def record (names : List String) : Decoder Record
  | m, .obj members => .ok ⟨m, false, members, false⟩
  | m, .arr items => .ok ⟨m, true, names.zip items, names.length < items.length⟩
  | _, j => .error (unexpectedInside j)

namespace Record

/-- The first member with a name. -/
def member? (r : Record) (name : String) : Option Json :=
  (r.members.find? (·.1 = name)).map (·.2)

/-- A field that has to be there. -/
def required {α : Type} (r : Record) (name : String) (d : Decoder α) : Except Fault α :=
  match r.member? name with
  | some j => d r.mode j
  | none => .error .mismatch

/-- A field that may be left out or be `null`. -/
def optional {α : Type} (r : Record) (name : String) (d : Decoder α) : Except Fault (Option α) :=
  match r.member? name with
  | some j => option d r.mode j
  | none => if r.positional then .error .mismatch else .ok none

/-- A field with a default. -/
def defaulted {α : Type} (r : Record) (name : String) (default : α) (d : Decoder α) :
    Except Fault α :=
  match r.member? name with
  | some j => d r.mode j
  | none => .ok default

/-- The outcome of a field, forgetting its value. -/
def outcome {α : Type} (_ : Record) (field : Except Fault α) : Except Fault Unit :=
  field.map fun _ => ()

/-- Report the first fault in document order, given the outcome of each field. Fields of other
names are skipped and a field that is given twice is refused. -/
def settleFrom (known : List (String × Except Fault Unit)) :
    List String → List (String × Json) → Except Fault Unit
  | _, [] => .ok ()
  | seen, (name, j) :: rest =>
    match known.find? (·.1 = name) with
    | none => do
      skip j
      settleFrom known seen rest
    | some (_, outcome) =>
      if seen.contains name then .error .mismatch
      else do
        outcome
        settleFrom known (name :: seen) rest

/-- Report the first fault of the record in document order. -/
def settle (r : Record) (known : List (String × Except Fault Unit)) : Except Fault Unit := do
  settleFrom known [] r.members
  if r.surplus then
    -- Absent fields of a list are reported before items that are too many: both cannot be.
    throw (Decode.surplus r.mode)

end Record

/-! ## Tagged alternatives -/

/-- The alternative that a tag names, by word or, in a document that was read before, by its
number. -/
def choice {α : Type} (named : List (String × α)) : Decoder α
  | _, .str s => ((named.find? (·.1 = s)).map (·.2)).elim (.error .mismatch) .ok
  | .held, .num (.int n) => (if 0 ≤ n then (named[n.toNat]?).map (·.2) else none).elim
      (.error .mismatch) .ok
  | _, j => .error (unexpected j)

/-- Walk the members of a tagged document: the tag is decoded where it stands, all else is held
until the end. -/
def tagAmong {α : Type} (key : String) (named : List (String × α)) (m : Mode) :
    Option α → List (String × Json) → Except Fault α
  | found, [] => found.elim (.error .mismatch) .ok
  | found, (name, j) :: rest =>
    if name = key then
      match found with
      | some _ => .error .mismatch
      | none => do
        let a ← choice named m j
        tagAmong key named m (some a) rest
    else do
      let _ ← hold m j
      tagAmong key named m found rest

/-- The alternative that the tag under `key` names, and the document without its tag. The tag of
a list is its first item. -/
def tagged {α : Type} (key : String) (named : List (String × α)) : Decoder (α × Json)
  | m, .obj members => do
    let a ← tagAmong key named m none members
    return (a, .obj (members.filter (·.1 ≠ key)))
  | m, .arr (tag :: rest) => do
    let a ← choice named m tag
    let _ ← hold m (.arr rest)
    return (a, .arr rest)
  | _, .arr [] => .error .mismatch
  | _, j => .error (unexpectedInside j)

/-! ## Texts -/

/-- Decode a text. -/
def text {α : Type} (d : Decoder α) (s : String) : Except Fault α := do
  let reading := read s
  let a ← d .streamed reading.root
  if reading.ends then return a else throw .malformed

/-- Decode a document. -/
def document {α : Type} (d : Decoder α) (j : Json) : Except Fault α := d .streamed j

end Decode

end PegMachine.Json
