import PegMachine.Pipeline

/-!
# What passes leave alone

Most of what passes do is to say something, which changes neither the grammar nor what is known
about it, and never takes an error back. A stage that goes well had no errors in the end, so none of
its passes reported one.
-/

namespace PegMachine

namespace Session

/-- A session goes on to another one, between which things were said only. -/
structure Keeps (s t : Session) : Prop where
  grammar : t.grammar = s.grammar
  facts : t.facts = s.facts
  options : t.options = s.options
  program : t.program = s.program
  errors : s.diagnostics.errors ≤ t.diagnostics.errors

namespace Keeps

variable {s t u : Session}

theorem refl (s : Session) : s.Keeps s := ⟨rfl, rfl, rfl, rfl, Nat.le_refl _⟩

theorem trans (h : s.Keeps t) (h' : t.Keeps u) : s.Keeps u :=
  ⟨h'.grammar.trans h.grammar, h'.facts.trans h.facts, h'.options.trans h.options,
    h'.program.trans h.program, Nat.le_trans h.errors h'.errors⟩

/-- There were no errors before if there are none after. -/
theorem errors_eq_zero (h : s.Keeps t) (ht : t.diagnostics.errors = 0) :
    s.diagnostics.errors = 0 :=
  Nat.le_zero.mp (Nat.le_trans h.errors (Nat.le_of_eq ht))

theorem ite {p : Prop} [Decidable p] (ht : s.Keeps t) (hu : s.Keeps u) :
    s.Keeps (if p then t else u) := by
  split
  · exact ht
  · exact hu

theorem foldl {α : Type} {f : Session → α → Session} (hf : ∀ s a, Keeps s (f s a)) (as : List α)
    (s : Session) : s.Keeps (as.foldl f s) := by
  induction as generalizing s with
  | nil => exact refl s
  | cons a as ih => exact (hf s a).trans (ih _)

end Keeps

variable (s : Session) (message : String) (location : Option Location)

theorem keeps_logs (level : LogLevel) (text : String) : s.Keeps (s.logs level text) :=
  ⟨rfl, rfl, rfl, rfl, Nat.le_refl _⟩

theorem errors_record (d : Diagnostics) (p : Problem) : (d.record p).errors = d.errors := by
  cases h : d.verbose <;> simp [Diagnostics.record, Diagnostics.logs, h]

theorem keeps_report (p : Problem) : s.Keeps (s.diagnose (·.report p)) := by
  refine ⟨rfl, rfl, rfl, rfl, ?_⟩
  simp only [diagnose, Diagnostics.report, errors_record]
  split
  · exact Nat.le_succ _
  · exact Nat.le_refl _

theorem errors_error : (s.error message location).diagnostics.errors =
    s.diagnostics.errors + 1 := by
  simp [error, diagnose, Diagnostics.error, Diagnostics.report, errors_record, Severity.isFailure]

theorem keeps_error : s.Keeps (s.error message location) := keeps_report s _

theorem keeps_warning : s.Keeps (s.warning message location) := keeps_report s _

theorem keeps_info : s.Keeps (s.info message location) := keeps_report s _

/-- Reporting errors one after the other counts all of them. -/
theorem errors_foldl {α : Type} {f : Session → α → Session}
    (hf : ∀ s a, (f s a).diagnostics.errors = s.diagnostics.errors + 1) (as : List α) :
    (as.foldl f s).diagnostics.errors = s.diagnostics.errors + as.length := by
  induction as generalizing s with
  | nil => rfl
  | cons a as ih =>
    rw [List.foldl_cons, ih, hf, List.length_cons]
    omega

/-! ## Passes that only say something -/

theorem keeps_checkDuplicateRules : s.Keeps s.checkDuplicateRules := by
  refine Keeps.foldl (fun t r => ?_) _ s
  dsimp only
  split
  · exact .ite (keeps_report t _) (.refl t)
  · exact .refl t

theorem keeps_checkMissingRules : s.Keeps s.checkMissingRules :=
  Keeps.foldl (fun t _ => keeps_error t _ _) _ s

theorem keeps_checkLeftRecursion : s.Keeps s.checkLeftRecursion :=
  Keeps.foldl (fun t _ => keeps_error t _ _) _ s

variable {s} in
/-- No left recursion was reported if there are no errors. -/
theorem leftRecursion_eq_nil (h : s.checkLeftRecursion.diagnostics.errors = 0) :
    s.facts.leftRecursion s.grammar = [] := by
  rw [checkLeftRecursion, errors_foldl _ fun s a => errors_error s _ _] at h
  exact List.length_eq_zero_iff.mp (Nat.add_eq_zero_iff.mp h).2

variable {s} in
/-- No endless loop was reported if there are no errors. -/
theorem endlessLoops_eq_nil (h : s.checkEndlessLoops.diagnostics.errors = 0) :
    s.facts.endlessLoops s.grammar = [] := by
  rw [checkEndlessLoops, errors_foldl _ fun s a => errors_error s _ _] at h
  exact List.length_eq_zero_iff.mp (Nat.add_eq_zero_iff.mp h).2

/-- The references to rules that are not known. -/
def missingReferences (s : Session) : List (String × Option Location) :=
  ((List.range s.grammar.rules.length).flatMap s.grammar.ruleNodes).filterMap s.missingReference?

variable {s} in
/-- No missing rule was reported if there are no errors. -/
theorem missingReferences_eq_nil (h : s.checkMissingRules.diagnostics.errors = 0) :
    s.missingReferences = [] := by
  have herrors : s.checkMissingRules.diagnostics.errors =
      s.diagnostics.errors + s.missingReferences.length :=
    errors_foldl s (fun s a => errors_error s _ _) s.missingReferences
  exact List.length_eq_zero_iff.mp (Nat.add_eq_zero_iff.mp (herrors.symm.trans h)).2

variable {s} in
theorem missingReference?_congr {t : Session} (h : s.Keeps t) :
    t.missingReference? = s.missingReference? := by
  funext id
  rw [missingReference?, missingReference?, h.grammar, h.facts]

/-- The indices of the rules that are not used. -/
def unused (s : Session) : List Nat :=
  (s.grammar.rules.zipIdx.filter fun (_, i) =>
    !(s.facts.reachable s.grammar).getD i false).map (·.2)

/-- Rules are removed if there are any that are not used, after something was said of them. -/
theorem dropUnusedRules_cases : ∃ t, s.Keeps t ∧
    (s.unused = [] ∧ s.dropUnusedRules = t ∨ s.dropUnusedRules = t.removeRules s.unused) := by
  have hwarned : s.Keeps ((s.grammar.rules.zipIdx.filter
      fun (_, i) => !(s.facts.reachable s.grammar).getD i false).foldl
        (fun s (r, _) => s.warning ("Rule \"" ++ r.name ++ "\" is not used.") r.location) s) :=
    Keeps.foldl (fun t (r : Rule × Nat) => keeps_warning t _ _) _ s
  unfold dropUnusedRules
  dsimp only
  split
  · next hnone =>
    refine ⟨_, hwarned, .inl ⟨?_, rfl⟩⟩
    rw [unused, List.isEmpty_iff.mp hnone]
    rfl
  · exact ⟨_, hwarned.trans (keeps_logs _ _ _), .inr rfl⟩

/-- Dropping rules takes no error back. -/
theorem errors_le_dropUnusedRules :
    s.diagnostics.errors ≤ s.dropUnusedRules.diagnostics.errors := by
  obtain ⟨t, hkeeps, ⟨-, hdropped⟩ | hdropped⟩ := dropUnusedRules_cases s
  · rw [hdropped]
    exact hkeeps.errors
  · rw [hdropped]
    exact hkeeps.errors

theorem keeps_checkEndlessLoops : s.Keeps s.checkEndlessLoops :=
  Keeps.foldl (fun t _ => keeps_error t _ _) _ s

theorem keeps_checkLabels : s.Keeps s.checkLabels :=
  .ite (Keeps.foldl (fun t _ => keeps_error t _ _) _ s) (.refl s)

theorem keeps_reportStarters (r : StarterResolution) : s.Keeps (s.reportStarters r) := by
  have hunmatched : s.Keeps (if r.unmatched.isEmpty then s else s.warning
      ("These rules specified in the options as starters are not defined in this grammar: "
        ++ ", ".intercalate r.unmatched) none) := .ite (.refl s) (keeps_warning s _ _)
  unfold reportStarters
  dsimp only
  split
  · exact hunmatched.trans (keeps_warning _ _ _)
  · exact hunmatched

end Session

/-! ## Stages -/

variable {s t : Session}

/-- A pass that went well. -/
def Pass.Goes (pass : Pass) (s t : Session) : Prop := pass.run s = (.ok (), t)

theorem Stage.runPasses_cons {stage : String} {pass : Pass} {rest : List Pass}
    (h : Stage.runPasses stage (pass :: rest) s = (.ok (), t)) :
    ∃ u v, s.Keeps u ∧ pass.Goes u v ∧ Stage.runPasses stage rest v = (.ok (), t) := by
  rw [Stage.runPasses] at h
  split at h
  · cases h
  · next v hpass => exact ⟨_, v, s.keeps_logs _ _, hpass, h⟩

/-- The session in which the passes of a stage begin. -/
def Stage.begun (stage : Stage) (s : Session) : Session :=
  (s.logs .info ("stage " ++ stage.name ++ s!": {stage.passes.length} pass(es)")).diagnose
    (·.beginStage)

/-- A stage that went well ran all of its passes, and there were no errors in the end. -/
theorem Stage.run_eq_ok {stage : Stage} (h : stage.run s = (.ok (), t)) :
    ∃ v, Stage.runPasses stage.name stage.passes (stage.begun s) = (.ok (), v) ∧ v.Keeps t ∧
      v.diagnostics.errors = 0 := by
  rw [Stage.run] at h
  split at h
  · cases h
  · next v hpasses =>
    simp only [Stage.finish, Prod.mk.injEq] at h
    obtain ⟨hend, rfl⟩ := h
    have herrors : v.diagnostics.errors = 0 := by
      unfold Diagnostics.endStage at hend
      split at hend
      · assumption
      · cases hend
    exact ⟨v, hpasses, v.keeps_logs _ _, herrors⟩

theorem Pipeline.run_cons {stage : Stage} {rest : Pipeline}
    (h : Pipeline.run (stage :: rest) s = (.ok (), t)) :
    ∃ u, stage.run s = (.ok (), u) ∧ Pipeline.run rest u = (.ok (), t) := by
  rw [Pipeline.run] at h
  split at h
  · cases h
  · next u hstage => exact ⟨u, hstage, h⟩

end PegMachine
