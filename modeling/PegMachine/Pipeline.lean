import PegMachine.Session.Checks
import PegMachine.Session.Generation
import PegMachine.Session.Preparation
import PegMachine.Session.Transforms

/-!
# Pipelines

Passes run in a fixed order, in stages. A pass that fails ends the pipeline at once. Errors that
passes report end it after their stage, so that all passes of a stage get to say what is wrong.
-/

namespace PegMachine

/-- Passes that run together. -/
structure Stage where
  /-- The name of the stage. -/
  name : String
  /-- The passes in order. -/
  passes : List Pass

/-- Stages in order. -/
abbrev Pipeline := List Stage

namespace Stage

/-- A stage as it is shown to a person. -/
def describe (stage : Stage) : String :=
  "Stage \x7b name: " ++ Text.quote stage.name ++ ", passes: ["
    ++ ", ".intercalate (stage.passes.map Pass.describe) ++ "] \x7d"

/-- Run some passes of a stage until one fails. -/
def runPasses (stage : String) : List Pass → Session → Verdict × Session
  | [], s => (.ok (), s)
  | pass :: rest, s =>
    match pass.run (s.logs .debug ("pass " ++ stage ++ "." ++ pass.name)) with
    | (.error e, s) => (.error e, s)
    | (.ok (), s) => runPasses stage rest s

/-- The verdict on a stage all of whose passes ran. -/
def finish (stage : String) (s : Session) : Verdict × Session :=
  let found := s.diagnostics.stageProblems.length
  let s := s.logs .info ("stage " ++ stage
    ++ s!" done: {found} problem(s), {s.diagnostics.errors} error(s)")
  ((s.diagnostics.endStage stage).mapError .grammar, s)

/-- Run a stage. -/
def run (stage : Stage) (s : Session) : Verdict × Session :=
  let s := s.logs .info ("stage " ++ stage.name ++ s!": {stage.passes.length} pass(es)")
  match runPasses stage.name stage.passes (s.diagnose (·.beginStage)) with
  | (.error e, s) => (.error e, s)
  | (.ok (), s) => finish stage.name s

end Stage

namespace Pipeline

/-- The stages of a compilation. -/
def standard : Pipeline :=
  [⟨"prepare", [.link, .statistics, .descriptions]⟩,
   ⟨"check", [.duplicateRules, .missingRules, .unusedRules, .consumption, .leftRecursion,
     .infiniteLoops, .duplicateLabels]⟩,
   ⟨"transform", [.proxyRules, .autoLabel, .consumption, .memoization]⟩,
   ⟨"generate", [.bytecode, .source]⟩]

/-- Run the stages until one fails. -/
def run : Pipeline → Session → Verdict × Session
  | [], s => (.ok (), s)
  | stage :: rest, s =>
    match stage.run s with
    | (.error e, s) => (.error e, s)
    | (.ok (), s) => run rest s

/-- Stages one after the other: the later ones run if the earlier ones go well. -/
theorem run_append (a b : Pipeline) (s : Session) :
    run (a ++ b) s = match run a s with
      | (.ok (), s) => run b s
      | (.error e, s) => (.error e, s) := by
  induction a generalizing s with
  | nil => rfl
  | cons stage rest ih =>
    rw [List.cons_append, run, run]
    split
    · rfl
    · rw [ih]

end Pipeline

end PegMachine
