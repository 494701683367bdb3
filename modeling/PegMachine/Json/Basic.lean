/-!
# Documents

A JSON document as a tree. Object members keep their order and may repeat a name; what a repeated
name means is decided where the object is decoded.

Two constructors record what a reader could not make sense of, so that a decoder walking the tree
in document order meets a fault exactly where a decoder reading the text would meet it. Written
documents never contain them.
-/

namespace PegMachine

/-- A number of a document. -/
inductive Json.Number where
  /-- A whole number from -2^63 to 2^64 - 1. -/
  | int (n : Int)
  /-- Any other number, by its text. -/
  | real (text : String)
  deriving DecidableEq, Repr, Inhabited

/-- A JSON document. -/
inductive Json where
  /-- The document `null`. -/
  | null
  /-- A truth value. -/
  | bool (b : Bool)
  /-- A number. -/
  | num (n : Json.Number)
  /-- A text. -/
  | str (s : String)
  /-- A list of documents. -/
  | arr (items : List Json)
  /-- Named members, in document order. -/
  | obj (members : List (String × Json))
  /-- A part that can be skipped but not used: nested too deeply, a number beyond all bounds, or a
  text with half of a surrogate pair. -/
  | unfit (inner : Json)
  /-- The place where the text stops being JSON. -/
  | cut
  deriving Inhabited, Repr

namespace Json

/-- A whole number as a document. -/
def nat (n : Nat) : Json := .num (.int n)

/-- A whole number as a document. -/
def int (n : Int) : Json := .num (.int n)

/-- The document of an optional part; `null` when there is none. -/
def opt {α : Type} (f : α → Json) : Option α → Json
  | none => .null
  | some a => f a

/-- An object whose absent members are left out. -/
def objOf (members : List (String × Option Json)) : Json :=
  .obj (members.filterMap fun (name, value) => value.map (name, ·))

mutual

/-- Whether the text of the document is JSON to its end. -/
def isWhole : Json → Bool
  | .cut => false
  | .unfit inner => inner.isWhole
  | .arr items => allWhole items
  | .obj members => membersWhole members
  | _ => true

/-- Whether every document of a list is JSON to its end. -/
def allWhole : List Json → Bool
  | [] => true
  | j :: rest => j.isWhole && allWhole rest

/-- Whether every member is JSON to its end. -/
def membersWhole : List (String × Json) → Bool
  | [] => true
  | (_, j) :: rest => j.isWhole && membersWhole rest

end

mutual

/-- Whether every part of the document can be used. -/
def isUsable : Json → Bool
  | .cut => false
  | .unfit _ => false
  | .arr items => allUsable items
  | .obj members => membersUsable members
  | _ => true

/-- Whether every part of each document of a list can be used. -/
def allUsable : List Json → Bool
  | [] => true
  | j :: rest => j.isUsable && allUsable rest

/-- Whether every part of each member can be used. -/
def membersUsable : List (String × Json) → Bool
  | [] => true
  | (_, j) :: rest => j.isUsable && membersUsable rest

end

end Json

end PegMachine
