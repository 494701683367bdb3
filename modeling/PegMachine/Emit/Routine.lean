import PegMachine.Emit.Layout
import PegMachine.Machine.Routine
import PegMachine.Program

/-!
# Emitted routines

A routine as a Rust function: its slots are variables and each statement is one line. Comments
name the rules that are called and what failures report.
-/

namespace PegMachine.Emit

open Layout

/-! ## Comments -/

/-- The words of a text, given what was read of the current word, last character first. -/
def wordsFrom (current : List Char) : List Char → List (List Char)
  | [] => if current.isEmpty then [] else [current.reverse]
  | c :: rest =>
    if Unicode.isWhiteSpace c then
      if current.isEmpty then wordsFrom [] rest else current.reverse :: wordsFrom [] rest
    else wordsFrom (c :: current) rest

/-- A text on one line, with one blank between words. -/
def oneLine (text : String) : String :=
  " ".intercalate ((wordsFrom [] text.toList).map String.ofList)

/-- The comment on an expression. -/
def comment (p : Program) : Routine.Expr → String
  | .fail c =>
    match p.expectation? c with
    | some e => " // " ++ oneLine e.description
    | none => ""
  | .rule index =>
    match p.rules[index]? with
    | some r => " // " ++ r.name
    | none => ""
  | _ => ""

/-! ## Expressions and conditions -/

/-- The variable of a slot. -/
def slotName (slot : Nat) : String := s!"s{slot}"

/-- A call on the state of the parser. -/
def stateCall (name argument : String) : String := "state." ++ name ++ "(" ++ argument ++ ")"

/-- A call on a slot. -/
def slotCall (slot : Nat) (name : String) : String := slotName slot ++ "." ++ name ++ "()"

/-- A condition. -/
def ofCond : Routine.Cond → String
  | .truthy s => slotCall s "is_truthy"
  | .isFailed s => slotCall s "is_failed"
  | .notFailed s => "!" ++ slotCall s "is_failed"
  | .matchAny => stateCall "match_any" ""
  | .matchString c => stateCall "match_string" (toString c)
  | .matchStringIc c => stateCall "match_string_ic" (toString c)
  | .matchRegexp c => stateCall "match_regexp" (toString c)
  | .arrayShorter s n => slotCall s "array_len" ++ s!" < {n}"
  | .arrayAtLeast s n => slotCall s "array_len" ++ s!" >= {n}"

/-- An expression. -/
def ofExpr : Routine.Expr → String
  | .const c => stateCall "constant" (toString c)
  | .currPos => stateCall "push_curr_pos" ""
  | .take s => slotCall s "take"
  | .undefined => "Slot::Value(Value::Undefined)"
  | .null => "Slot::Value(Value::Null)"
  | .failed => stateCall "push_failed" ""
  | .emptyArray => "Slot::empty_array()"
  | .wrap first n =>
    let items := (List.range n).map fun i => slotCall (first + i) "take"
    "Slot::wrap(vec![" ++ ", ".intercalate items ++ "])"
  | .text s => stateCall "text" ("&" ++ slotName s)
  | .acceptN n => stateCall "accept_n" (toString n)
  | .acceptString c => stateCall "accept_string" (toString c)
  | .acceptRegexp c => stateCall "accept_regexp" (toString c)
  | .fail c => stateCall "fail" (toString c)
  | .call action args =>
    let items := args.map fun s => slotCall s "to_value"
    stateCall "call" (s!"{action}, &[" ++ ", ".intercalate items ++ "]") ++ "?"
  | .rule index => s!"rule_{index}(state)?"

/-! ## Statements -/

mutual

/-- The lines of a statement. -/
def ofStmt (p : Program) : Routine.Stmt → Layout
  | .assign slot e => [.plain (slotName slot ++ " = " ++ ofExpr e ++ ";" ++ comment p e)]
  | .restorePos s => [.plain (stateCall "restore_pos" ("&" ++ slotName s) ++ ";")]
  | .loadSavedPos s => [.plain (stateCall "load_saved_pos" ("&" ++ slotName s) ++ ";")]
  | .updateSavedPos => [.plain (stateCall "update_saved_pos" "" ++ ";")]
  | .silentOn => [.plain (stateCall "silent_fails_on" "" ++ ";")]
  | .silentOff => [.plain (stateCall "silent_fails_off" "" ++ ";")]
  | .silentReset => [.plain (stateCall "silent_fails_reset" "" ++ ";")]
  | .append array item =>
    [.plain ("let item = " ++ slotCall item "take" ++ "; " ++ slotName array ++ ".push(item);")]
  | .branch c held otherwise =>
    [.opening ("if " ++ ofCond c ++ " \x7b")] ++ ofStmts p held
      ++ (if otherwise.isEmpty then [] else [.turning "\x7d else \x7b"] ++ ofStmts p otherwise)
      ++ [.closing "\x7d"]
  | .loop c body => braced ("while " ++ ofCond c) (ofStmts p body)

/-- The lines of some statements. -/
def ofStmts (p : Program) : List Routine.Stmt → Layout
  | [] => []
  | s :: rest => ofStmt p s ++ ofStmts p rest

end

/-- The comment above a routine: its name, and what the parts of its rule are called. -/
def routineHeading (name : String) (parts : List String) : Layout :=
  [.plain ("/// `" ++ name ++ "`")] ++ (if parts.isEmpty then [] else
    [.plain "///", .plain ("/// Parts: " ++ ", ".intercalate parts)])

/-- The body of the function of a routine. -/
def routineBody (p : Program) (r : Routine) : Layout :=
  let declaration (i : Nat) : Line := .plain ("let mut " ++ slotName i ++ " = Slot::Failed;")
  (List.range (max r.slots 1)).map declaration ++ ofStmts p r.body ++ [.plain "Ok(s0)"]

/-- A routine as a function. -/
def ofRoutine (p : Program) (r : Routine) (parts : List String) : Layout :=
  routineHeading r.name parts
    ++ braced (s!"fn rule_{r.rule}(state: &mut ParserState<'_>) -> Result<Slot, ParseFailure>")
      (enclosed (s!"state.rule({r.rule}, |state| \x7b") (routineBody p r) "\x7d)")
    ++ [blank]

end PegMachine.Emit
