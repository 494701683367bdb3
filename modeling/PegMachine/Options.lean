import PegMachine.Json.Decode
import PegMachine.Json.Printer

/-!
# Options

What a compilation is asked for: the rules a parse may start from, memoization, the kind of
executor, the outputs, instrumentation and how strictly defects are reported.

As a document, start rules are the text `*` for all rules or a list of names; a list that holds
`*` means all rules too, and an empty list the first rule.
-/

namespace PegMachine

/-- The rules that a parse may start from. -/
inductive StartRules where
  /-- The first rule. -/
  | first
  /-- Some rules, the preferred one first. -/
  | listed (names : List String)
  /-- Every rule. -/
  | all
  deriving DecidableEq, Repr, Inhabited

namespace StartRules

/-- Start rules are a text or a list of texts. -/
def decode : Json.Decoder StartRules := fun m j => do
  match ← Json.Decode.hold m j with
  | .str name => return if name = "*" then .all else .listed [name]
  | j =>
    let names ← Json.Decode.list Json.Decode.string .held j
    return if names.isEmpty then .first else if names.contains "*" then .all else .listed names

/-- The document of start rules. -/
def toJson : StartRules → Json
  | .first => .arr []
  | .listed names => .arr (names.map .str)
  | .all => .str "*"

end StartRules

/-- What a parser is made for. -/
inductive Optimize where
  /-- Routines of their own for every rule. -/
  | speed
  /-- One interpreter for all rules. -/
  | size
  deriving DecidableEq, Repr, Inhabited

namespace Optimize

/-- The word for a goal. -/
def name : Optimize → String
  | .speed => "speed"
  | .size => "size"

/-- The goal that a word names. -/
def ofName? (word : String) : Option Optimize := [speed, size].find? (·.name = word)

end Optimize

/-- A kind of output. -/
inductive OutputKind where
  /-- A parser ready to run. -/
  | parser
  /-- The source text of a parser. -/
  | source
  /-- The grammar after all passes. -/
  | ast
  deriving DecidableEq, Repr, Inhabited

namespace OutputKind

/-- The word for a kind of output. -/
def name : OutputKind → String
  | .parser => "parser"
  | .source => "source"
  | .ast => "ast"

/-- The kind of output that a word names. -/
def ofName? (word : String) : Option OutputKind := [parser, source, ast].find? (·.name = word)

end OutputKind

/-- The outputs that are asked for. -/
inductive Outputs where
  /-- One output. -/
  | single (kind : OutputKind)
  /-- Several outputs. -/
  | several (kinds : List OutputKind)
  deriving DecidableEq, Repr, Inhabited

namespace Outputs

/-- Whether a kind of output is asked for. -/
def wants (kind : OutputKind) : Outputs → Bool
  | .single k => k = kind
  | .several kinds => kinds.contains kind

/-- Outputs are a word or a list of words. -/
def decode : Json.Decoder Outputs := fun m j => do
  let j ← Json.Decode.hold m j
  match Json.Decode.tag OutputKind.ofName? .held j with
  | .ok kind => return .single kind
  | .error _ => return .several (← Json.Decode.list (Json.Decode.tag OutputKind.ofName?) .held j)

/-- The document of outputs. -/
def toJson : Outputs → Json
  | .single kind => .str kind.name
  | .several kinds => .arr (kinds.map (.str ·.name))

end Outputs

/-- The options of a compilation. -/
structure Options where
  /-- The rules that a parse may start from. -/
  startRules : StartRules := .first
  /-- Memoize rules. -/
  cache : Bool := false
  /-- Memoize rules even where the grammar as a whole asks for the opposite. -/
  forceCache : Bool := false
  /-- What the parser is made for. -/
  optimize : Optimize := .speed
  /-- The outputs that are asked for. -/
  output : Outputs := .single .parser
  /-- Emit trace events. -/
  trace : Bool := false
  /-- Collect statistics. -/
  statistics : Bool := false
  /-- Rules of one name are errors and not just warnings. -/
  reportDuplicateRules : Bool := false
  /-- Labels that are bound twice in one scope are reported. -/
  reportDuplicateLabels : Bool := true
  /-- Every problem is logged. -/
  verbose : Bool := false
  deriving DecidableEq, Repr, Inhabited

namespace Options

/-- The names of the members of the document of options, in order. -/
def memberNames : List String :=
  ["allowed_start_rules", "cache", "force_cache", "optimize", "output", "trace",
   "collect_statistics", "report_duplicate_rules", "report_duplicate_labels", "verbose"]

/-- Options are records whose members may all be left out. -/
def decode : Json.Decoder Options := fun m j => do
  let r ← Json.Decode.record memberNames m j
  let base : Options := {}
  let flag (name : String) (default : Bool) : Except Json.Fault Bool :=
    r.defaulted name default Json.Decode.bool
  let startRules := r.defaulted "allowed_start_rules" base.startRules StartRules.decode
  let cache := flag "cache" base.cache
  let forceCache := flag "force_cache" base.forceCache
  let optimize := r.defaulted "optimize" base.optimize (Json.Decode.tag Optimize.ofName?)
  let output := r.defaulted "output" base.output Outputs.decode
  let trace := flag "trace" base.trace
  let statistics := flag "collect_statistics" base.statistics
  let duplicateRules := flag "report_duplicate_rules" base.reportDuplicateRules
  let duplicateLabels := flag "report_duplicate_labels" base.reportDuplicateLabels
  let verbose := flag "verbose" base.verbose
  r.settle [("allowed_start_rules", r.outcome startRules), ("cache", r.outcome cache),
    ("force_cache", r.outcome forceCache), ("optimize", r.outcome optimize),
    ("output", r.outcome output), ("trace", r.outcome trace),
    ("collect_statistics", r.outcome statistics),
    ("report_duplicate_rules", r.outcome duplicateRules),
    ("report_duplicate_labels", r.outcome duplicateLabels), ("verbose", r.outcome verbose)]
  return ⟨← startRules, ← cache, ← forceCache, ← optimize, ← output, ← trace, ← statistics,
    ← duplicateRules, ← duplicateLabels, ← verbose⟩

/-- The document of options. -/
def toJson (o : Options) : Json :=
  .obj [("allowed_start_rules", o.startRules.toJson), ("cache", .bool o.cache),
    ("force_cache", .bool o.forceCache), ("optimize", .str o.optimize.name),
    ("output", o.output.toJson), ("trace", .bool o.trace),
    ("collect_statistics", .bool o.statistics),
    ("report_duplicate_rules", .bool o.reportDuplicateRules),
    ("report_duplicate_labels", .bool o.reportDuplicateLabels), ("verbose", .bool o.verbose)]

/-- The options that a text describes. -/
def ofText (text : String) : Except Json.Fault Options := Json.Decode.text decode text

/-- The text of options. -/
def toText (o : Options) : String := o.toJson.compact

end Options

end PegMachine
