/-!
# Layout

Source text as a list of lines that know how they change the depth of the lines after them. Only
`written` counts blanks: a line is indented by four of them for each open block, and an empty line
not at all.
-/

namespace PegMachine.Emit

/-- A line of source text. -/
inductive Line where
  /-- A line like any other. -/
  | plain (text : String)
  /-- A line that opens a block. -/
  | opening (text : String)
  /-- A line that closes a block and opens the next one. -/
  | turning (text : String)
  /-- A line that closes a block. -/
  | closing (text : String)
  deriving DecidableEq, Repr, Inhabited

/-- Source text, line by line. -/
abbrev Layout := List Line

namespace Line

/-- The text of a line. -/
def text : Line → String
  | .plain text => text
  | .opening text => text
  | .turning text => text
  | .closing text => text

/-- The depth of a line, given the depth that the lines before it leave. -/
def depth (d : Nat) : Line → Nat
  | .plain _ => d
  | .opening _ => d
  | .turning _ => d - 1
  | .closing _ => d - 1

/-- The depth that a line leaves, given the depth that the lines before it leave. -/
def depthAfter (d : Nat) : Line → Nat
  | .plain _ => d
  | .opening _ => d + 1
  | .turning _ => d - 1 + 1
  | .closing _ => d - 1

/-- A text at a depth. -/
def indented (d : Nat) (text : String) : String :=
  if text.isEmpty then text else String.ofList (List.replicate (4 * d) ' ') ++ text

end Line

namespace Layout

/-- An empty line. -/
def blank : Line := .plain ""

/-- A text without the carriage return at its end, if it has one. -/
def dropReturn (text : List Char) : List Char :=
  match text.reverse with
  | '\r' :: rest => rest.reverse
  | _ => text

/-- The lines of a text, given what was read of the current line, last character first. Lines end
with a line feed or with a carriage return and a line feed; nothing follows the last end. -/
def splitFrom (current : List Char) : List Char → List (List Char)
  | [] => if current.isEmpty then [] else [current.reverse]
  | c :: rest =>
    if c = '\n' then dropReturn current.reverse :: splitFrom [] rest
    else splitFrom (c :: current) rest

/-- A text line by line. -/
def ofText (text : String) : Layout :=
  (splitFrom [] text.toList).map fun line => .plain (String.ofList line)

/-- A block between two lines. -/
def enclosed (first : String) (body : Layout) (last : String) : Layout :=
  [.opening first] ++ body ++ [.closing last]

/-- A block in braces after a heading. -/
def braced (heading : String) (body : Layout) : Layout := enclosed (heading ++ " \x7b") body "\x7d"

/-- The written lines, given the depth that the lines before them leave. -/
def writtenFrom (d : Nat) : Layout → List String
  | [] => []
  | line :: rest => Line.indented (line.depth d) line.text :: writtenFrom (line.depthAfter d) rest

/-- Every line is written once. -/
theorem length_writtenFrom (d : Nat) (l : Layout) : (writtenFrom d l).length = l.length := by
  induction l generalizing d with
  | nil => rfl
  | cons line rest ih => simp [writtenFrom, ih]

/-- The text of a layout. -/
def written (l : Layout) : String := String.join ((writtenFrom 0 l).map (· ++ "\n"))

end Layout

end PegMachine.Emit
