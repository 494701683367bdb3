import PegMachine.Decimal
import PegMachine.Json.Basic

/-!
# Statistics

Counters for every rule: how often it was invoked, by whom, how often its result was recalled, and
how it failed. `Statistics.report` sets them out for a person: first the rules that ran, the most
visited first, then the names of the others.
-/

namespace PegMachine

/-- The counters of the calls from one rule to another. -/
structure CallerCounters where
  /-- Invocations. -/
  visit : Nat := 0
  /-- Invocations whose result was recalled. -/
  cacheHit : Nat := 0
  deriving DecidableEq, Repr, Inhabited

/-- The counters of a rule. -/
structure RuleCounters where
  /-- The name of the rule. -/
  name : String
  /-- Whether the rule is memoized. -/
  memoized : Bool
  /-- Invocations. -/
  visit : Nat := 0
  /-- Invocations whose result was recalled. -/
  cacheHit : Nat := 0
  /-- Failed runs. -/
  returnFail : Nat := 0
  /-- Failed runs without reports. -/
  returnSilentFail : Nat := 0
  /-- Recalled failures. -/
  returnCachedFail : Nat := 0
  /-- Recalled failures without reports. -/
  returnCachedSilentFail : Nat := 0
  /-- Failures with an expectation. -/
  fail : Nat := 0
  /-- Failures with an expectation that was not reported. -/
  silentFail : Nat := 0
  /-- Failures without an expectation. -/
  pushedFail : Nat := 0
  /-- The counters of each caller, in the order of the callers' indices. -/
  callers : List (Nat × CallerCounters) := []
  deriving DecidableEq, Repr, Inhabited

namespace RuleCounters

/-- The counters of a rule that has not run. -/
def zero (name : String) (memoized : Bool) : RuleCounters where
  name := name
  memoized := memoized

/-- The sum of all counters of failures. -/
def failures (c : RuleCounters) : Nat :=
  c.fail + c.silentFail + c.pushedFail + c.returnFail + c.returnSilentFail + c.returnCachedFail
    + c.returnCachedSilentFail

/-- Change the counters of one caller in a list sorted by caller. -/
def updateCaller (caller : Nat) (f : CallerCounters → CallerCounters) :
    List (Nat × CallerCounters) → List (Nat × CallerCounters)
  | [] => [(caller, f {})]
  | (other, c) :: rest =>
    if caller < other then (caller, f {}) :: (other, c) :: rest
    else if caller = other then (caller, f c) :: rest
    else (other, c) :: updateCaller caller f rest

/-- Change the counters of a caller, if there is one. -/
def countCaller (c : RuleCounters) (caller : Option Nat) (f : CallerCounters → CallerCounters) :
    RuleCounters :=
  match caller with
  | none => c
  | some caller => { c with callers := updateCaller caller f c.callers }

/-- Count an invocation. -/
def countVisit (c : RuleCounters) (caller : Option Nat) : RuleCounters :=
  { c with visit := c.visit + 1 }.countCaller caller fun k => { k with visit := k.visit + 1 }

/-- Count a recalled result. -/
def countRecall (c : RuleCounters) (caller : Option Nat) (failed silent : Bool) : RuleCounters :=
  { c with
    cacheHit := c.cacheHit + 1
    returnCachedFail := c.returnCachedFail + failed.toNat
    returnCachedSilentFail := c.returnCachedSilentFail + (failed && silent).toNat }.countCaller
    caller fun k => { k with cacheHit := k.cacheHit + 1 }

/-- Count the end of a run. -/
def countReturn (c : RuleCounters) (failed silent : Bool) : RuleCounters :=
  { c with
    returnFail := c.returnFail + failed.toNat
    returnSilentFail := c.returnSilentFail + (failed && silent).toNat }

/-- Count a failure with an expectation. -/
def countFail (c : RuleCounters) (silent : Bool) : RuleCounters :=
  { c with fail := c.fail + 1, silentFail := c.silentFail + silent.toNat }

/-- Count a failure without an expectation. -/
def countPushedFail (c : RuleCounters) : RuleCounters :=
  { c with pushedFail := c.pushedFail + 1 }

/-- The document of the counters of a rule. -/
def toJson (c : RuleCounters) : Json :=
  .obj [("name", .str c.name), ("memoized", .bool c.memoized), ("visit", .nat c.visit),
    ("cache_hit", .nat c.cacheHit), ("return_fail", .nat c.returnFail),
    ("return_silent_fail", .nat c.returnSilentFail),
    ("return_cached_fail", .nat c.returnCachedFail),
    ("return_cached_silent_fail", .nat c.returnCachedSilentFail), ("fail", .nat c.fail),
    ("silent_fail", .nat c.silentFail), ("pushed_fail", .nat c.pushedFail),
    ("visiting_parent", .obj (c.callers.map fun (caller, k) =>
      (toString caller, .obj [("visit", .nat k.visit), ("cache_hit", .nat k.cacheHit)])))]

end RuleCounters

/-- The counters of all rules of a program. -/
structure Statistics where
  /-- The counters, by index of their rules. -/
  rules : Array RuleCounters
  deriving DecidableEq, Repr, Inhabited

namespace Statistics

/-- The counters of rules that have not run, given their names and whether they are memoized. -/
def zero (rules : List (String × Bool)) : Statistics :=
  ⟨(rules.map fun (name, memoized) => RuleCounters.zero name memoized).toArray⟩

/-- The counters of the first rule with a name. -/
def rule? (s : Statistics) (name : String) : Option RuleCounters :=
  s.rules.find? (·.name = name)

/-- The counters of the calls from one rule to another, by name. -/
def callerCounters (s : Statistics) (rule caller : String) : CallerCounters :=
  match s.rule? rule, s.rules.findIdx? (·.name = caller) with
  | some c, some index => ((c.callers.find? (·.1 = index)).map (·.2)).getD {}
  | _, _ => {}

/-- The same rules with all counters at zero. -/
def reset (s : Statistics) : Statistics :=
  ⟨s.rules.map fun c => RuleCounters.zero c.name c.memoized⟩

/-- Change the counters of a rule, if there is one with the index. -/
def update (s : Statistics) (rule : Nat) (f : RuleCounters → RuleCounters) : Statistics :=
  ⟨s.rules.modify rule f⟩

/-- The document of statistics. -/
def toJson (s : Statistics) : Json := .obj [("rules", .arr (s.rules.toList.map (·.toJson)))]

/-! ## Report -/

/-- The number of columns that a report fills. -/
def displayWidth : Nat := 120

/-- The least number of blanks between columns. -/
def columnGap : Nat := 3

/-- A text followed by as many characters as it takes to reach a width. -/
def padWith (fill : Char) (width : Nat) (text : String) : String :=
  text ++ String.ofList (List.replicate (width - text.length) fill)

/-- The greatest number of bytes of a name, and at least one. -/
def widest (names : List String) : Nat := names.foldl (fun w name => max w name.utf8ByteSize) 1

/-- Rows of at most `n + 1` items. -/
def rowsOf {α : Type} (n : Nat) : List α → List (List α)
  | [] => []
  | a :: rest => (a :: rest.take n) :: rowsOf n (rest.drop n)
termination_by items => items.length
decreasing_by simp only [List.length_drop, List.length_cons]; omega

/-- A row of names; all but the last are padded. -/
def nameRow (width : Nat) : List String → String
  | [] => ""
  | [last] => last
  | name :: rest => padWith ' ' width name ++ nameRow width rest

/-- Names in as many columns as fit. -/
def nameTable (names : List String) (indent : String) : List String :=
  let width := widest names + columnGap
  let columns := max 1 ((displayWidth - indent.length) / width)
  (rowsOf (columns - 1) names).map fun row => indent ++ nameRow width row

/-- A share of some visits in percent, with at most one place. -/
def percent (count visits : Nat) : String :=
  let text := Decimal.oneplace (100.0 * Float.ofNat count / Float.ofNat visits)
  if text.endsWith ".0" then String.ofList (text.toList.dropLast.dropLast) else text

/-- A counter of failures in a report: zero is shown as a stroke. -/
def failureField (label value : String) : String :=
  (if label.isEmpty then "" else label ++ ": ") ++ (if value = "0" then "----" else value)

/-- The line about the failures of a rule. -/
def failureLine (c : RuleCounters) : String :=
  if c.failures = 0 then "    fail: --none--"
  else
    let visits := max c.visit 1
    "    fail: " ++ ", ".intercalate
      [failureField "" (toString c.returnFail),
       failureField "predicate" (toString c.returnSilentFail),
       failureField "memo" (toString c.returnCachedFail),
       failureField "pred-memo" (toString c.returnCachedSilentFail),
       failureField "state" (toString c.fail),
       failureField "quiet" (toString c.silentFail),
       failureField "push" (toString c.pushedFail),
       failureField "F%" (percent c.returnFail visits),
       failureField "Pred%" (percent c.returnSilentFail visits)]

/-- The callers of a rule that called it, the most frequent first. -/
def callersByVisits (c : RuleCounters) : List (Nat × CallerCounters) :=
  (c.callers.filter fun (_, k) => 0 < k.visit + k.cacheHit).mergeSort fun (_, a) (_, b) =>
    b.visit < a.visit || (a.visit == b.visit && b.cacheHit ≤ a.cacheHit)

/-- The line about a caller of a rule. -/
def callerLine (s : Statistics) (nameWidth : Nat) (caller : Nat) (k : CallerCounters) : String :=
  let name := (s.rules[caller]?).elim "" (·.name)
  let hits := if 0 < k.cacheHit then toString k.cacheHit else "--"
  "      " ++ padWith '.' nameWidth name ++ ": " ++ toString k.visit ++ " / " ++ hits

/-- What a report says about the memo table for a rule. -/
def memoNote (c : RuleCounters) : String :=
  if 0 < c.cacheHit then s!"memo cache hits: {c.cacheHit}"
  else if c.memoized then "--no memo cache hit--"
  else "~~ memoization OFF ~~"

/-- The lines about a rule that ran. -/
def ruleLines (s : Statistics) (nameWidth : Nat) (c : RuleCounters) : List String :=
  ["  " ++ c.name ++ ":",
   "    visits: " ++ padWith ' ' 20 (toString c.visit) ++ "    " ++ memoNote c]
  ++ (callersByVisits c).map (fun (caller, k) => s.callerLine nameWidth caller k)
  ++ [failureLine c]

/-- The rules that ran, the most visited first, then by failed runs. -/
def rulesByVisits (s : Statistics) : List RuleCounters :=
  (s.rules.toList.filter (0 < ·.visit)).mergeSort fun a b =>
    b.visit < a.visit || (a.visit == b.visit && b.returnFail ≤ a.returnFail)

/-- The names of the rules that did not run, sorted. -/
def unusedNames (s : Statistics) : List String :=
  ((s.rules.toList.filter (·.visit = 0)).map (·.name)).mergeSort (· ≤ ·)

/-- A report for a person. -/
def report (s : Statistics) : String :=
  let nameWidth := widest (s.rules.toList.map (·.name))
  let title := "### Run-time Cache Hit Statistics: rules which "
  let lines := [title ++ "used the cache:"]
    ++ s.rulesByVisits.flatMap (s.ruleLines nameWidth)
    ++ ["", title ++ "were not used:"]
    ++ nameTable s.unusedNames "  "
  String.join (lines.map (· ++ "\n"))

end Statistics

end PegMachine
