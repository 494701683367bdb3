import PegMachine.Grammar.Basic

/-!
# Memoization policy

The annotations `cache` and `nocache` say whether a rule is memoized; with the parameter `all` or
`none` they say so for the whole grammar instead. Only the first annotation for the grammar and
the first one of each rule count.
-/

namespace PegMachine

/-- What the annotations of a grammar say about memoization. -/
structure MemoPolicy where
  /-- Whether rules are memoized unless they say otherwise. -/
  default : Option Bool := none
  /-- What each rule says. -/
  rules : Array (Option Bool)
  /-- The annotations that do not count, and why. -/
  conflicts : List (String × Option Location) := []
  deriving DecidableEq, Repr, Inhabited

namespace MemoPolicy

/-- Whether an annotation asks for memoization or against it. -/
def polarity? (a : Annotation) : Option Bool :=
  if a.name = "cache" then some true else if a.name = "nocache" then some false else none

/-- Whether an annotation is about the whole grammar, and if so what it says. -/
def scope? (cache : Bool) (a : Annotation) : Option Bool :=
  ((a.params.filterMap Param.keyword?).find? fun k => k = "all" ∨ k = "none").map
    fun k => cache == (k == "all")

/-- The end of a message about an annotation that does not count. -/
def ignoredAt : Option Location → String
  | some l => s!" The one at line {l.start.line}, column {l.start.column} is ignored."
  | none => ""

/-- Take one more annotation of a rule into account. -/
def read (index : Nat) (r : Rule) (p : MemoPolicy) (a : Annotation) : MemoPolicy :=
  match polarity? a with
  | none => p
  | some cache =>
    let location := a.location.orElse fun _ => r.location
    let conflict (message : String) : MemoPolicy :=
      { p with conflicts := p.conflicts ++ [(message ++ ignoredAt location, location)] }
    match scope? cache a with
    | some on =>
      if p.default.isSome then
        conflict "Multiple cache(all/none) declarations; only the first one is used."
      else { p with default := some on }
    | none =>
      if p.rules[index]?.join.isSome then
        conflict ("Multiple cache() declarations apply to the same rule \"" ++ r.name
          ++ "\"; only the first one is used.")
      else { p with rules := p.rules.setIfInBounds index (some cache) }

/-- What the annotations of a grammar say. -/
def ofGrammar (g : Grammar) : MemoPolicy :=
  g.rules.zipIdx.foldl (fun p (r, index) => r.annotations.foldl (read index r) p)
    { rules := Array.replicate g.rules.length none }

end MemoPolicy

end PegMachine
