import PegMachine.Facts
import PegMachine.Generate.Pool
import PegMachine.Unicode.LetterCase

/-!
# Generating code

Every expression becomes code that leaves exactly one entry on the stack: the value of the match
or a failure. A failure leaves the input where it was.

The generator knows the height of the stack in front of each expression, and so the slot that the
value of a label will have. An action is handed the labels as distances from the top. Labels bound
by the elements of a sequence are seen by later elements, and by the action of the sequence; they
are not seen outside of it.
-/

namespace PegMachine

/-- The labels in scope with the slots of their values, in the order of their binding. -/
abbrev Scope := List (String × Nat)

namespace Scope

/-- Bind a label; a label that is bound already keeps its place in the order. -/
def bind (label : String) (slot : Nat) : Scope → Scope
  | [] => [(label, slot)]
  | (other, s) :: rest =>
    if other = label then (other, slot) :: rest else (other, s) :: bind label slot rest

/-- The labels. -/
def labels (scope : Scope) : List String := scope.map (·.1)

/-- The distances of the labels from the top of a stack of some height. -/
def distances (height : Nat) : Scope → Except GenerateError (List UInt32)
  | [] => .ok []
  | (label, slot) :: rest =>
    if slot < height then do
      let others ← distances height rest
      return UInt32.ofNat (height - 1 - slot) :: others
    else .error (.labelAboveTop label slot height)

end Scope

/-- The pattern of a character class that has parts. -/
def classPattern (parts : List ClassPart) (inverted : Bool) : String :=
  let part : ClassPart → List Char
    | .char c => Regex.escape [c]
    | .range first last => Regex.escape [first] ++ ['-'] ++ Regex.escape [last]
  String.ofList (['['] ++ (if inverted then ['^'] else []) ++ parts.flatMap part ++ [']'])

namespace Generate

open Code

/-- The call of an action that replaces some entries of a stack of some height. -/
def call (f : UInt32) (replaced : Nat) (scope : Scope) (height : Nat) : Generate Instr := fun p =>
  match scope.distances height with
  | .ok distances =>
    .ok (.plain .call
      ([f, UInt32.ofNat replaced, UInt32.ofNat scope.length] ++ distances), p)
  | .error e => .error e

/-- Code for a terminal: a condition, and what to do if it holds. -/
def terminal (opcode : Opcode) (operands : List UInt32) (accept : Instr) (e : UInt32) :
    Generate Code := do
  return [← branch opcode operands [accept] [op1 .fail e]]

/-- Code that runs when the code before it failed. -/
def afterFailure (recovery : Code) : Generate Instr := branch .ifError [] recovery []

/-- Code for a literal. -/
def literal (value : String) (ignoreCase : Bool) : Generate Code := do
  if value.isEmpty then
    return [op1 .push (← string "")]
  if ignoreCase then
    let c ← string (String.ofList (Unicode.lowerText value.toList))
    let e ← expectation (.literal value)
    terminal .matchStringIc [c] (op1 .acceptN (UInt32.ofNat value.length)) e
  else
    let c ← string value
    let e ← expectation (.literal value)
    terminal .matchString [c] (op1 .acceptString c) e

/-- The message about a range of a class whose ends are out of order. -/
def rangeDefect? : ClassPart → Option String
  | .char _ => none
  | .range first last =>
    if last < first then
      some ("Invalid character range: " ++ String.ofList [first, '-', last] ++ ".")
    else none

/-- Code for a character class. -/
def charClass (parts : List ClassPart) (inverted ignoreCase : Bool) (raw : String)
    (location : Option Location) : Generate Code := do
  (parts.filterMap rangeDefect?).forM fun message => defect message location
  let e ← expectation (.ofClass raw)
  if parts.isEmpty then
    if inverted then terminal .matchAny [] (op1 .acceptN 1) e else return [op1 .fail e]
  else
    let r ← pattern (classPattern parts inverted) ignoreCase false
    terminal .matchRegexp [r] (op1 .acceptN 1) e

/-- Code for a regular expression. -/
def regex (value : String) (ignoreCase multiLine : Bool) (raw : String)
    (location : Option Location) : Generate Code := do
  if (Regex.compile? (Regex.anchored value ignoreCase multiLine)).isNone then
    defect ("Invalid regular expression " ++ raw ++ ".") location
  let r ← pattern value ignoreCase multiLine
  let e ← expectation (.regex raw)
  terminal .matchRegexp [r] (op1 .acceptRegexp r) e

/-- Code that gives a value. -/
def codeTerminal (source : String) (scope : Scope) (height : Nat) : Generate Code := do
  let f ← action scope.labels source
  let e ← expectation (.code source)
  let run ← call f 0 scope height
  let onFailure ← afterFailure [op .pop, op1 .fail e]
  return [op .updateSavedPos, run, onFailure]

/-- Code that has to answer true, or false. -/
def semanticPredicate (source : String) (negative : Bool) (scope : Scope) (height : Nat) :
    Generate Code := do
  let f ← action scope.labels source
  let run ← call f 0 scope height
  let (truthy, falsy) : Opcode × Opcode :=
    if negative then (.pushFailed, .pushUndefined) else (.pushUndefined, .pushFailed)
  let test ← branch .ifTruthy [] [op .pop, op truthy] [op .pop, op falsy]
  return [op .updateSavedPos, op .silentFailsOn, run, op .silentFailsOff, test]

/-- A predicate on what follows, given the code for that. -/
def simplePredicate (e : Code) (negative : Bool) : Generate Code := do
  let (test, matched, unmatched) : Opcode × Opcode × Opcode :=
    if negative then (.ifError, .pop, .popCurrPos) else (.ifNotError, .popCurrPos, .pop)
  let test ← branch test [] [op .pop, op matched, op .pushUndefined]
    [op .pop, op unmatched, op .pushFailed]
  return [op .pushCurrPos, op .silentFailsOn] ++ e ++ [op .silentFailsOff, test]

/-- An expression that failures report under a name, given its code. -/
def named (e : UInt32) (code : Code) : Generate Code := do
  let test ← afterFailure [op .pop, op1 .fail e]
  return [op .silentFailsOn] ++ code ++ [op .silentFailsOff, test]

/-- A choice, given the code of its alternatives. -/
def choice : List Code → Generate Code
  | [] => return []
  | [last] => return last
  | first :: rest => do
    let others ← choice rest
    return first ++ [← afterFailure (op .pop :: others)]

/-- The matched text in place of the value, given the code of the expression. -/
def text (e : Code) : Generate Code := do
  return [op .pushCurrPos] ++ e ++ [← branch .ifNotError [] [op .pop, op .text] [op .nip]]

/-- A match or nothing, given the code of the expression. -/
def optional (e : Code) : Generate Code := do
  return e ++ [← afterFailure [op .pop, op .pushNull]]

/-- A loop that appends values for as long as there are any. -/
def appendLoop (e : Code) : Generate Instr := loop (op .append :: e)

/-- Any number of matches, given the code for one. -/
def zeroOrMore (e : Code) : Generate Code := do
  return [op .pushEmptyArray] ++ e ++ [← appendLoop e, op .pop]

/-- At least one match, given the code for one. -/
def oneOrMore (e : Code) : Generate Code := do
  let loop ← appendLoop e
  let test ← branch .ifNotError [] [loop, op .pop] [op .pop, op .pop, op .pushFailed]
  return [op .pushEmptyArray] ++ e ++ [test]

/-- What is done when a saved offset has to be restored below a failure or a value. -/
def restoreAndFail : Code := [op .pop, op .popCurrPos, op .pushFailed]

/-- A delimiter and one more element, given their code. -/
def delimited (delimiter e : Code) : Generate Code := do
  let inner ← branch .ifError [] restoreAndFail [op .nip]
  let outer ← branch .ifNotError [] ([op .pop] ++ e ++ [inner]) [op .nip]
  return [op .pushCurrPos] ++ delimiter ++ [outer]

/-- A bounded number of matches, given the code for the first one and for each further one. -/
def range (min : UInt32) (max : Option UInt32) (first further : Code) : Generate Code := do
  let bounded ← match max with
    | some max => do
      let test ← branch .ifArrlenMax [max] [op .pushFailed] further
      pure [test]
    | none => pure further
  let loop ← appendLoop bounded
  let main := [op .pushEmptyArray] ++ first ++ [loop, op .pop]
  if min = 0 then return main
  let test ← branch .ifArrlenMin [min] restoreAndFail [op .nip]
  return [op .pushCurrPos] ++ main ++ [test]

/-- What is done when an element of a sequence failed after some others. -/
def cleanup (processed : Nat) : Code :=
  [if 1 < processed then op1 .popN (UInt32.ofNat processed) else op .pop,
    op .popCurrPos, op .pushFailed]

/-- The elements of a sequence one inside the other, the first of which has a place, around what
is done in the end. -/
def nest (tail : Code) (place : Nat) : List Code → Generate Code
  | [] => return tail
  | e :: rest => do
    let inner ← nest tail (place + 1) rest
    return e ++ [← branch .ifNotError [] inner (cleanup (place + 1))]

/-- The end of a sequence: a list of the values, or the result of its action. -/
def sequenceEnd (n : Nat) (action? : Option String) (scope : Scope) (height : Nat) :
    Generate Code := do
  match action? with
  | some source =>
    let f ← action scope.labels source
    let run ← call f n scope height
    return [op1 .loadSavedPos (UInt32.ofNat n), run, op .nip]
  | none => return [op1 .wrap (UInt32.ofNat n), op .nip]

/-- The action of an expression that is no sequence, given its code. -/
def actionAround (e : Code) (source : String) (scope : Scope) (height : Nat) :
    Generate Code := do
  let f ← action scope.labels source
  let run ← call f 1 scope (height + 2)
  let test ← branch .ifNotError [] [op1 .loadSavedPos 1, run] []
  return [op .pushCurrPos] ++ e ++ [test, op .nip]

/-- The code of expressions one after the other, each one entry higher than the one before and in
the scope that the one before left. -/
def elements (node : NodeId → Nat → Scope → Generate (Code × Scope)) :
    List NodeId → Nat → Scope → Generate (List Code × Scope)
  | [], _, scope => return ([], scope)
  | e :: rest, height, scope => do
    let (code, scope) ← node e height scope
    let (codes, scope) ← elements node rest (height + 1) scope
    return (code :: codes, scope)

/-- Whether an action takes over the end of its expression: it is a sequence with elements. -/
def takesOver : Shape → Bool
  | .sequence elements => !elements.isEmpty
  | _ => false

/-- The code of a node in front of which the stack has some height, and the scope after it, given
what there is for the nodes below it. -/
def level (g : Grammar) (f : Facts)
    (below : NodeId → (height : Nat) → Scope → (action? : Option String) → Generate (Code × Scope))
    (id : NodeId) (height : Nat) (scope : Scope) (action? : Option String) :
    Generate (Code × Scope) := do
  let child (e : NodeId) (height : Nat) (scope : Scope) : Generate Code :=
    (·.1) <$> below e height scope none
  match g.shape id with
  | .named name e =>
    let expected ← expectation (.other name)
    return (← named expected (← child e height scope), scope)
  | .choice alternatives =>
    let codes ← alternatives.mapM fun e => child e height scope
    return (← choice codes, scope)
  | .action e source =>
    if takesOver (g.shape e) then
      let (code, _) ← below e height scope (some source)
      return (code, scope)
    else
      let (code, inner) ← below e (height + 1) scope (some source)
      return (← actionAround code source inner height, scope)
  | .sequence es =>
    let element (e : NodeId) (height : Nat) (scope : Scope) : Generate (Code × Scope) :=
      below e height scope none
    let (codes, inner) ← elements element es (height + 1) scope
    let tail ← sequenceEnd es.length action? inner (height + 1 + es.length)
    let code ← nest tail 0 codes
    return (op .pushCurrPos :: code, if action?.isSome then inner else scope)
  | .labeled label e =>
    let code ← child e height scope
    return (code, label.elim scope fun label => scope.bind label height)
  | .text e => return (← text (← child e (height + 1) scope), scope)
  | .simpleAnd e => return (← simplePredicate (← child e (height + 1) scope) false, scope)
  | .simpleNot e => return (← simplePredicate (← child e (height + 1) scope) true, scope)
  | .optional e => return (← optional (← child e height scope), scope)
  | .zeroOrMore e => return (← zeroOrMore (← child e (height + 1) scope), scope)
  | .oneOrMore e => return (← oneOrMore (← child e (height + 1) scope), scope)
  | .range min max e delimiter =>
    if max = some 0 ∧ min = 0 then return ([op .pushEmptyArray], scope)
    let base := if 0 < min then height + 1 else height
    let first ← child e (base + 1) []
    let further ← match delimiter with
      | some d => do
        let between ← child d (base + 2) []
        let again ← child e (base + 2) []
        delimited between again
      | none => pure first
    return (← range min max first further, scope)
  | .semanticAnd source => return (← semanticPredicate source false scope height, scope)
  | .semanticNot source => return (← semanticPredicate source true scope height, scope)
  | .ruleRef name =>
    match f.target? id with
    | some rule => return ([op1 .rule (UInt32.ofNat rule)], scope)
    | none => fail (.unresolved name)
  | .literal value ignoreCase => return (← literal value ignoreCase, scope)
  | .charClass parts inverted ignoreCase raw =>
    return (← charClass parts inverted ignoreCase raw (g.node id).location, scope)
  | .regex value ignoreCase multiLine raw =>
    return (← regex value ignoreCase multiLine raw (g.node id).location, scope)
  | .any =>
    let e ← expectation .any
    return (← terminal .matchAny [] (op1 .acceptN 1) e, scope)
  | .epsilon => return ([op1 .push (← string "")], scope)
  | .code source => return (← codeTerminal source scope height, scope)

/-- The code of a node in front of which the stack has some height, and the scope after it, given
a bound on the depth below the node. -/
def node (g : Grammar) (f : Facts) :
    Nat → NodeId → (height : Nat) → Scope → (action? : Option String) → Generate (Code × Scope)
  | 0, _, _, scope, _ => return ([], scope)
  | depth + 1, id, height, scope, action? => level g f (node g f depth) id height scope action?

/-- The code of a rule. -/
def rule (g : Grammar) (f : Facts) (r : Rule) : Generate Code := do
  let (code, _) ← node g f g.depthBound r.expression 0 [] none
  if code.effect = 1 then return code else fail (.unbalanced r.name code.effect)

end Generate

/-- What is generated for a grammar. -/
structure Generated where
  /-- The code of each rule. -/
  code : List Code
  /-- What was collected along the way. -/
  pools : Pools

/-- Generate code for all rules of a linked grammar. -/
def Facts.generate (f : Facts) (g : Grammar) : Except GenerateError Generated := do
  let (code, pools) ← (g.rules.mapM (Generate.rule g f)).run {}
  return ⟨code, pools⟩

/-- The program of a grammar for which code was generated. -/
def Generated.program (c : Generated) (g : Grammar) (f : Facts) (trace : Bool) : Program :=
  let starters := f.starterIndices g
  let rules := (g.rules.zip c.code).zipIdx.map fun ((r, code), index) =>
    { name := r.name
      memoize := (f.rules[index]?).any (·.memoize)
      code := code.assemble.toArray : Program.Rule }
  { rules := rules.toArray
    constants := c.pools.constants
    actions := c.pools.actions
    starters
    defaultStart := starters.headD 0
    memoize := f.memoize
    trace
    statistics := f.statistics }

end PegMachine
