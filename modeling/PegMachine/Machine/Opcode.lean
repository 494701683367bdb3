/-!
# Opcodes

The instructions of the stack machine that compiled rules run on. An instruction is one opcode
word followed by a fixed number of operand words; a call has as many more as its third operand
says.

Conditions end with two lengths `t f`: the next `t` words are run if the condition holds, the `f`
words after those if it does not. Loops end with the length `b` of their body.
-/

namespace PegMachine

/-- The opcodes. -/
inductive Opcode where
  /-- Push a string constant: `c`. -/
  | push
  /-- Push the current input offset. -/
  | pushCurrPos
  /-- Drop the top of the stack. -/
  | pop
  /-- Pop a saved offset and go back to it. -/
  | popCurrPos
  /-- Drop entries: `n`. -/
  | popN
  /-- Drop the entry below the top. -/
  | nip
  /-- Pop a value and append it to the list below it. -/
  | append
  /-- Replace the top entries by a list of them: `n`. -/
  | wrap
  /-- Replace a saved offset by the text from there to the current offset. -/
  | text
  /-- Branch on the truth of the top: `t f`. -/
  | ifTruthy
  /-- Branch on the top being a failure: `t f`. -/
  | ifError
  /-- Branch on the top being no failure: `t f`. -/
  | ifNotError
  /-- Repeat the body while the top is no failure: `b`. -/
  | whileNotError
  /-- Branch on whether any input is left: `t f`. -/
  | matchAny
  /-- Branch on whether a string constant follows: `c t f`. -/
  | matchString
  /-- Branch on whether a lower-case string constant follows, ignoring case: `c t f`. -/
  | matchStringIc
  /-- Branch on whether a pattern constant matches here: `c t f`. -/
  | matchRegexp
  /-- Push the next characters and move past them: `n`. -/
  | acceptN
  /-- Push a string constant and move past it: `c`. -/
  | acceptString
  /-- Push a failure and report an expectation constant: `e`. -/
  | fail
  /-- Load the register of actions from an entry below the top: `p`. -/
  | loadSavedPos
  /-- Set the register of actions to the current offset. -/
  | updateSavedPos
  /-- Replace entries by the result of an action: `f n pc p1 … pN`. -/
  | call
  /-- Invoke a rule and push its result: `r`. -/
  | rule
  /-- Push the undefined value. -/
  | pushUndefined
  /-- Push null. -/
  | pushNull
  /-- Push a failure without a report. -/
  | pushFailed
  /-- Push an empty list. -/
  | pushEmptyArray
  /-- Branch on the list on top having fewer items: `min t f`. -/
  | ifArrlenMin
  /-- Branch on the list on top having at least so many items: `max t f`. -/
  | ifArrlenMax
  /-- Stop reporting failures. -/
  | silentFailsOn
  /-- End one region without reports. -/
  | silentFailsOff
  /-- End every region without reports. -/
  | silentFailsReset
  /-- Push the text that a pattern constant matches and move past it: `c`. -/
  | acceptRegexp
  deriving DecidableEq, Repr, Inhabited

namespace Opcode

/-- The word of an opcode. -/
def word : Opcode → UInt32
  | .push => 0
  | .pushCurrPos => 1
  | .pop => 2
  | .popCurrPos => 3
  | .popN => 4
  | .nip => 5
  | .append => 6
  | .wrap => 7
  | .text => 8
  | .ifTruthy => 9
  | .ifError => 10
  | .ifNotError => 11
  | .whileNotError => 14
  | .matchAny => 15
  | .matchString => 16
  | .matchStringIc => 17
  | .matchRegexp => 18
  | .acceptN => 19
  | .acceptString => 20
  | .fail => 21
  | .loadSavedPos => 22
  | .updateSavedPos => 23
  | .call => 24
  | .rule => 25
  | .pushUndefined => 26
  | .pushNull => 27
  | .pushFailed => 28
  | .pushEmptyArray => 29
  | .ifArrlenMin => 30
  | .ifArrlenMax => 31
  | .silentFailsOn => 32
  | .silentFailsOff => 33
  | .silentFailsReset => 34
  | .acceptRegexp => 35

/-- The opcode with the given number, if there is one. -/
def ofNat? : Nat → Option Opcode
  | 0 => some .push
  | 1 => some .pushCurrPos
  | 2 => some .pop
  | 3 => some .popCurrPos
  | 4 => some .popN
  | 5 => some .nip
  | 6 => some .append
  | 7 => some .wrap
  | 8 => some .text
  | 9 => some .ifTruthy
  | 10 => some .ifError
  | 11 => some .ifNotError
  | 14 => some .whileNotError
  | 15 => some .matchAny
  | 16 => some .matchString
  | 17 => some .matchStringIc
  | 18 => some .matchRegexp
  | 19 => some .acceptN
  | 20 => some .acceptString
  | 21 => some .fail
  | 22 => some .loadSavedPos
  | 23 => some .updateSavedPos
  | 24 => some .call
  | 25 => some .rule
  | 26 => some .pushUndefined
  | 27 => some .pushNull
  | 28 => some .pushFailed
  | 29 => some .pushEmptyArray
  | 30 => some .ifArrlenMin
  | 31 => some .ifArrlenMax
  | 32 => some .silentFailsOn
  | 33 => some .silentFailsOff
  | 34 => some .silentFailsReset
  | 35 => some .acceptRegexp
  | _ => none

/-- The opcode of a word, if it is one. -/
def ofWord? (w : UInt32) : Option Opcode := ofNat? w.toNat

/-- The name of an opcode in listings. -/
def mnemonic : Opcode → String
  | .push => "PUSH"
  | .pushCurrPos => "PUSH_CURR_POS"
  | .pop => "POP"
  | .popCurrPos => "POP_CURR_POS"
  | .popN => "POP_N"
  | .nip => "NIP"
  | .append => "APPEND"
  | .wrap => "WRAP"
  | .text => "TEXT"
  | .ifTruthy => "IF"
  | .ifError => "IF_ERROR"
  | .ifNotError => "IF_NOT_ERROR"
  | .whileNotError => "WHILE_NOT_ERROR"
  | .matchAny => "MATCH_ANY"
  | .matchString => "MATCH_STRING"
  | .matchStringIc => "MATCH_STRING_IC"
  | .matchRegexp => "MATCH_REGEXP"
  | .acceptN => "ACCEPT_N"
  | .acceptString => "ACCEPT_STRING"
  | .fail => "FAIL"
  | .loadSavedPos => "LOAD_SAVED_POS"
  | .updateSavedPos => "UPDATE_SAVED_POS"
  | .call => "CALL"
  | .rule => "RULE"
  | .pushUndefined => "PUSH_UNDEFINED"
  | .pushNull => "PUSH_NULL"
  | .pushFailed => "PUSH_FAILED"
  | .pushEmptyArray => "PUSH_EMPTY_ARRAY"
  | .ifArrlenMin => "IF_ARRLEN_MIN"
  | .ifArrlenMax => "IF_ARRLEN_MAX"
  | .silentFailsOn => "SILENT_FAILS_ON"
  | .silentFailsOff => "SILENT_FAILS_OFF"
  | .silentFailsReset => "SILENT_FAILS_RESET"
  | .acceptRegexp => "ACCEPT_REGEXP"

/-- The number of operands; for a call, of those before its parameters. -/
def operands : Opcode → Nat
  | .push => 1
  | .pushCurrPos => 0
  | .pop => 0
  | .popCurrPos => 0
  | .popN => 1
  | .nip => 0
  | .append => 0
  | .wrap => 1
  | .text => 0
  | .ifTruthy => 2
  | .ifError => 2
  | .ifNotError => 2
  | .whileNotError => 1
  | .matchAny => 2
  | .matchString => 3
  | .matchStringIc => 3
  | .matchRegexp => 3
  | .acceptN => 1
  | .acceptString => 1
  | .fail => 1
  | .loadSavedPos => 1
  | .updateSavedPos => 0
  | .call => 3
  | .rule => 1
  | .pushUndefined => 0
  | .pushNull => 0
  | .pushFailed => 0
  | .pushEmptyArray => 0
  | .ifArrlenMin => 3
  | .ifArrlenMax => 3
  | .silentFailsOn => 0
  | .silentFailsOff => 0
  | .silentFailsReset => 0
  | .acceptRegexp => 1

/-- The number of operands of an instruction, given its words: a call has parameters too. -/
def width (opcode : Opcode) (arg : Nat → Nat) : Nat :=
  opcode.operands + if opcode = .call then arg 3 else 0

/-- Every opcode, by number. -/
def all : List Opcode :=
  [.push, .pushCurrPos, .pop, .popCurrPos, .popN, .nip, .append, .wrap, .text, .ifTruthy,
   .ifError, .ifNotError, .whileNotError, .matchAny, .matchString, .matchStringIc, .matchRegexp,
   .acceptN, .acceptString, .fail, .loadSavedPos, .updateSavedPos, .call, .rule, .pushUndefined,
   .pushNull, .pushFailed, .pushEmptyArray, .ifArrlenMin, .ifArrlenMax, .silentFailsOn,
   .silentFailsOff, .silentFailsReset, .acceptRegexp]

/-- Whether the last two operands are the lengths of two blocks. -/
def isCondition : Opcode → Bool
  | .ifTruthy => true
  | .ifError => true
  | .ifNotError => true
  | .matchAny => true
  | .matchString => true
  | .matchStringIc => true
  | .matchRegexp => true
  | .ifArrlenMin => true
  | .ifArrlenMax => true
  | _ => false

/-- Whether the last operand is the length of a body. -/
def isLoop : Opcode → Bool
  | .whileNotError => true
  | _ => false

end Opcode

end PegMachine
