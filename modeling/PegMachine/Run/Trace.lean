import PegMachine.Location
import PegMachine.Value

/-!
# Traces

A traced parse gives two events for every invocation of a rule, one when it is entered and one
when it is left. An event can be shown as a line, indented by the number of rules that are open.
-/

namespace PegMachine

namespace TraceEvent

/-- The kind of an event. -/
inductive Kind where
  /-- A rule is entered. -/
  | enter
  /-- A rule has matched. -/
  | matched
  /-- A rule has failed. -/
  | failed
  /-- A match was found in the memo table. -/
  | recalledMatch
  /-- A failure was found in the memo table. -/
  | recalledFailure
  deriving DecidableEq, Repr, Inhabited

namespace Kind

/-- The name of a kind. -/
def name : Kind → String
  | .enter => "rule.enter"
  | .matched => "rule.match"
  | .failed => "rule.fail"
  | .recalledMatch => "rule.match.memoized"
  | .recalledFailure => "rule.fail.memoized"

/-- Every kind. -/
def all : List Kind := [.enter, .matched, .failed, .recalledMatch, .recalledFailure]

/-- The kind with a name. -/
def ofName? (name : String) : Option Kind := all.find? (·.name = name)

/-- Whether the event closes an invocation. -/
def isExit : Kind → Bool
  | .enter => false
  | _ => true

end Kind

end TraceEvent

/-- An event of a traced parse. -/
structure TraceEvent where
  /-- The kind. -/
  kind : TraceEvent.Kind
  /-- The name of the rule. -/
  rule : String
  /-- The text that was matched; empty unless the rule matched. -/
  location : Location
  /-- The value of a match. -/
  result : Option Value := none
  deriving Inhabited

namespace TraceEvent

/-- An event as a line under a number of open rules. -/
def line (indent : Nat) (e : TraceEvent) : String :=
  let start := e.location.start
  let stop := e.location.stop
  let name := e.kind.name
  s!"{start.line}:{start.column}-{stop.line}:{stop.column} " ++ name
    ++ String.ofList (List.replicate (10 - name.length) ' ') ++ " "
    ++ String.ofList (List.replicate (2 * indent) ' ') ++ e.rule

/-- The number of open rules that the line of an event stands under. -/
def indentAt (indent : Nat) (e : TraceEvent) : Nat := if e.kind.isExit then indent - 1 else indent

/-- The number of open rules after an event. -/
def indentAfter (indent : Nat) (e : TraceEvent) : Nat :=
  if e.kind.isExit then indent - 1 else indent + 1

/-- Events as lines, given the number of rules that are open before the first. -/
def linesFrom (indent : Nat) : List TraceEvent → List String
  | [] => []
  | e :: rest => e.line (e.indentAt indent) :: linesFrom (e.indentAfter indent) rest

/-- The events of a parse as lines. -/
def lines (events : List TraceEvent) : List String := linesFrom 0 events

/-- The document of an event. -/
def toJson (e : TraceEvent) : Json :=
  .objOf [("type", some (.str e.kind.name)), ("rule", some (.str e.rule)),
    ("location", some e.location.toJson), ("result", e.result.map Value.toJson)]

end TraceEvent

end PegMachine
