import PegMachine.Proofs.Accepted
import PegMachine.Proofs.Proxies

/-!
# What is said of a grammar

A pass reports problems and goes on, or ends the compilation: with a defect of the compiler, or with
a fatal problem that it passes on at once. Whatever passes do to the session otherwise, every
problem is recorded, in order, and heard by every listener. A pipeline stops behind the first pass
that ends with an error, or at the end of the first stage in which an error or a fatal problem was
reported, and its error lists what was said since that stage began.
-/

namespace PegMachine

namespace Diagnostics

variable {d e e' : Diagnostics} {filed more : List Problem}

/-- Some problems were recorded last, and every listener heard them last. -/
structure Heard (filed : List Problem) (d e : Diagnostics) : Prop where
  problems : e.problems = d.problems ++ filed
  listeners : e.listeners = d.listeners.map (· ++ filed)

namespace Heard

theorem refl (d : Diagnostics) : Heard [] d d where
  problems := by simp
  listeners := by simp

theorem trans (h : Heard filed d e) (h' : Heard more e e') : Heard (filed ++ more) d e' where
  problems := by rw [h'.problems, h.problems, List.append_assoc]
  listeners := by
    rw [h'.listeners, h.listeners, List.map_map]
    simp [Function.comp_def]

theorem of_logs (level : LogLevel) (text : String) (h : Heard filed d e) :
    Heard filed d (e.logs level text) := ⟨h.problems, h.listeners⟩

theorem of_beginStage (h : Heard filed d e) : Heard filed d e.beginStage :=
  ⟨h.problems, h.listeners⟩

theorem of_record (d : Diagnostics) (p : Problem) : Heard [p] d (d.record p) := by
  cases h : d.verbose <;> constructor <;> simp [record, logs, h]

theorem of_report (d : Diagnostics) (p : Problem) : Heard [p] d (d.report p) := by
  unfold report
  split
  · have h := of_record { d with errors := d.errors + 1 } p
    exact ⟨h.problems, h.listeners⟩
  · exact of_record d p

end Heard

/-- Any number of problems is reported, with entries of the log in between. -/
inductive Reports (d : Diagnostics) : List Problem → Diagnostics → Prop
  | nothing : Reports d [] d
  | report {filed : List Problem} {e : Diagnostics} (h : Reports d filed e) (p : Problem) :
    Reports d (filed ++ [p]) (e.report p)
  | logs {filed : List Problem} {e : Diagnostics} (h : Reports d filed e) (level : LogLevel)
    (text : String) : Reports d filed (e.logs level text)

/-- Reports are followed by a verdict. A pass goes well, or the compiler is broken, or the grammar
is: then a fatal problem comes last, and its error is the verdict. -/
inductive Concludes (d : Diagnostics) : List Problem → Verdict → Diagnostics → Prop
  | well {filed : List Problem} {e : Diagnostics} (h : Reports d filed e) :
    Concludes d filed (.ok ()) e
  | broken {filed : List Problem} {e : Diagnostics} (h : Reports d filed e) (message : String) :
    Concludes d filed (.error (.internal message)) e
  | fatal {filed : List Problem} {e : Diagnostics} (h : Reports d filed e) (message : String)
    (location : Option Location) :
    Concludes d (filed ++ [{ severity := .fatal, message, location }])
      (.error (.grammar (e.fatal message location).1)) (e.fatal message location).2

theorem stageStart_record (d : Diagnostics) (p : Problem) :
    (d.record p).stageStart = d.stageStart := by
  cases h : d.verbose <;> simp [record, logs, h]

theorem errors_report (d : Diagnostics) (p : Problem) :
    (d.report p).errors = d.errors + [p].countP (·.severity.isFailure) := by
  cases h : p.severity.isFailure <;> simp [report, Session.errors_record, h]

namespace Reports

theorem trans (h : Reports d filed e) (h' : Reports e more e') : Reports d (filed ++ more) e' := by
  induction h' with
  | nothing => rwa [List.append_nil]
  | report _ p ih =>
    rw [← List.append_assoc]
    exact ih.report p
  | logs _ level text ih => exact ih.logs level text

theorem heard (h : Reports d filed e) : Heard filed d e := by
  induction h with
  | nothing => exact .refl d
  | report _ p ih => exact ih.trans (.of_report _ p)
  | logs _ level text ih => exact ih.of_logs level text

/-- Reports stay in their stage. -/
theorem stageStart (h : Reports d filed e) : e.stageStart = d.stageStart := by
  induction h with
  | nothing => rfl
  | report _ p ih =>
    rw [← ih, Diagnostics.report, stageStart_record]
    split <;> rfl
  | logs _ _ _ ih => exact ih

/-- Errors and fatal problems are counted, warnings and infos are not. -/
theorem errors (h : Reports d filed e) :
    e.errors = d.errors + filed.countP (·.severity.isFailure) := by
  induction h with
  | nothing => simp
  | report _ p ih => rw [errors_report, ih, List.countP_append, Nat.add_assoc]
  | logs _ _ _ ih => exact ih

end Reports

namespace Concludes

variable {v : Verdict}

theorem heard (h : Concludes d filed v e) : Heard filed d e := by
  cases h with
  | well h => exact h.heard
  | broken h => exact h.heard
  | fatal h message location => exact h.heard.trans (.of_record _ _)

theorem stageStart (h : Concludes d filed v e) : e.stageStart = d.stageStart := by
  cases h with
  | well h => exact h.stageStart
  | broken h => exact h.stageStart
  | fatal h => exact (stageStart_record _ _).trans h.stageStart

theorem reports (h : Concludes d filed (.ok ()) e) : Reports d filed e := by
  cases h with
  | well h => exact h

/-- A defect of the grammar lists the problems of its stage. -/
theorem told {g : GrammarError} (h : Concludes d filed (.error (.grammar g)) e) :
    g.problems = e.stageProblems := by
  cases h
  rfl

end Concludes

end Diagnostics

/-- A pass that does not touch what was said before, whatever else it does. -/
def Pass.OnlyReports (pass : Pass) : Prop :=
  ∀ s : Session, ∃ filed, s.diagnostics.Concludes filed (pass.run s).1 (pass.run s).2.diagnostics

/-- The problems that were recorded between two sessions. -/
def Session.since (s t : Session) : List Problem :=
  t.diagnostics.problems.drop s.diagnostics.problems.length

/-! ## Stages -/

namespace Stage

variable {stage : Stage} {name : String} {passes : List Pass} {s t u : Session} {e : CompileError}

/-- The session in which a pass starts. -/
def entered (name : String) (pass : Pass) (s : Session) : Session :=
  s.logs .debug ("pass " ++ name ++ "." ++ pass.name)

/-- Passes go well one after the other. -/
inductive AllGo (name : String) : List Pass → Session → Session → Prop
  | nil (s : Session) : AllGo name [] s s
  | cons {pass : Pass} {rest : List Pass} {s t u : Session} (h : pass.Goes (entered name pass s) t)
    (hrest : AllGo name rest t u) : AllGo name (pass :: rest) s u

theorem runPasses_eq_ok_iff :
    runPasses name passes s = (.ok (), t) ↔ AllGo name passes s t := by
  constructor
  · intro h
    induction passes generalizing s with
    | nil =>
      obtain rfl := runPasses_nil h
      exact .nil t
    | cons pass rest ih =>
      rw [runPasses] at h
      split at h
      · cases h
      · next v hpass => exact .cons hpass (ih h)
  · intro h
    induction h with
    | nil s => rfl
    | cons h hrest ih =>
      rw [runPasses]
      unfold Pass.Goes entered at h
      rw [h]
      exact ih

/-- Passes stop at the first that fails. -/
theorem runPasses_eq_error_iff : runPasses name passes s = (.error e, t) ↔
    ∃ before pass after u, passes = before ++ pass :: after ∧ AllGo name before s u ∧
      pass.run (entered name pass u) = (.error e, t) := by
  constructor
  · intro h
    induction passes generalizing s with
    | nil => cases h
    | cons pass rest ih =>
      rw [runPasses] at h
      split at h
      · next v hpass =>
        cases h
        exact ⟨[], pass, rest, s, rfl, .nil s, hpass⟩
      · next v hpass =>
        obtain ⟨before, failing, after, u, rfl, hbefore, hfails⟩ := ih h
        exact ⟨pass :: before, failing, after, u, rfl, .cons hpass hbefore, hfails⟩
  · rintro ⟨before, pass, after, u, rfl, hbefore, hfails⟩
    induction hbefore with
    | nil s =>
      rw [List.nil_append, runPasses]
      unfold entered at hfails
      rw [hfails]
    | cons h hrest ih =>
      rw [List.cons_append, runPasses]
      unfold Pass.Goes entered at h
      rw [h]
      exact ih hfails

/-- A stage ends with what its passes leave. -/
theorem run_eq (stage : Stage) (s : Session) :
    stage.run s = match runPasses stage.name stage.passes (stage.begun s) with
      | (.error e, s) => (.error e, s)
      | (.ok (), s) => finish stage.name s := rfl

theorem finish_eq_ok_iff :
    finish name u = (.ok (), t) ↔ u.diagnostics.errors = 0 ∧ t = (finish name u).2 := by
  constructor
  · intro h
    have hend : (u.diagnostics.endStage name).mapError CompileError.grammar = .ok () :=
      congrArg Prod.fst h
    refine ⟨?_, (congrArg Prod.snd h).symm⟩
    unfold Diagnostics.endStage at hend
    split at hend
    · assumption
    · cases hend
  · rintro ⟨h, rfl⟩
    have hend : u.diagnostics.endStage name = .ok () := Diagnostics.endStage_eq_ok_iff.mpr h
    refine Prod.ext ?_ rfl
    change (u.diagnostics.endStage name).mapError CompileError.grammar = _
    rw [hend]
    rfl

theorem finish_eq_error_iff : finish name u = (.error e, t) ↔
    u.diagnostics.errors ≠ 0 ∧ t = (finish name u).2 ∧ e = .grammar
      ⟨"Stage " ++ name ++ " contains errors.", none, u.diagnostics.stageProblems⟩ := by
  have hfst : (finish name u).1 = (u.diagnostics.endStage name).mapError CompileError.grammar := rfl
  constructor
  · intro h
    rw [h, Diagnostics.endStage] at hfst
    split at hfst
    · cases hfst
    · next hsome =>
      cases hfst
      exact ⟨hsome, (congrArg Prod.snd h).symm, rfl⟩
  · rintro ⟨hsome, rfl, rfl⟩
    rw [Diagnostics.endStage, if_neg hsome] at hfst
    exact Prod.ext hfst rfl

/-- A stage goes well: all of its passes do, and nothing that was recorded since it began is an
error or fatal. -/
def GoesWell (stage : Stage) (s t : Session) : Prop :=
  ∃ u, AllGo stage.name stage.passes (stage.begun s) u ∧
    (∀ p ∈ s.since u, p.severity.isFailure = false) ∧ t = (finish stage.name u).2

/-- A stage stops with an error: with that of the first pass that fails, or in its own name, when
all passes went well and an error or a fatal problem was recorded. A defect of the grammar lists
what was recorded since the stage began. -/
structure Stops (stage : Stage) (s : Session) (e : CompileError) (t : Session) : Prop where
  cause :
    (∃ before pass after u, stage.passes = before ++ pass :: after ∧
      AllGo stage.name before (stage.begun s) u ∧
      pass.run (entered stage.name pass u) = (.error e, t)) ∨
    (∃ u, AllGo stage.name stage.passes (stage.begun s) u ∧
      (∃ p ∈ s.since u, p.severity.isFailure = true) ∧ t = (finish stage.name u).2 ∧
      e = .grammar ⟨"Stage " ++ stage.name ++ " contains errors.", none, s.since t⟩)
  told : ∀ g, e = .grammar g → g.problems = s.since t

/-! Passes that only report leave a trail that the end of the stage reads. -/

section

variable (h : ∀ pass ∈ passes, pass.OnlyReports)

include h

theorem AllGo.reports (hgo : AllGo name passes s t) :
    ∃ filed, s.diagnostics.Reports filed t.diagnostics := by
  induction hgo with
  | nil s => exact ⟨[], .nothing⟩
  | @cons pass rest s t u hpass _ ih =>
    obtain ⟨filed, hfiled⟩ := h pass List.mem_cons_self (entered name pass s)
    rw [hpass] at hfiled
    obtain ⟨more, hmore⟩ := ih fun pass hmem => h pass (List.mem_cons_of_mem _ hmem)
    exact ⟨_, (Diagnostics.Reports.nothing.logs _ _).trans (hfiled.reports.trans hmore)⟩

theorem heard_runPasses (name : String) (s : Session) :
    ∃ filed, s.diagnostics.Heard filed (runPasses name passes s).2.diagnostics := by
  rcases hrun : runPasses name passes s with ⟨_ | _, t⟩
  · obtain ⟨before, pass, after, u, rfl, hbefore, hfails⟩ := runPasses_eq_error_iff.mp hrun
    obtain ⟨filed, hfiled⟩ := hbefore.reports fun pass hmem => h pass (by simp [hmem])
    obtain ⟨more, hmore⟩ := h pass (by simp) (entered name pass u)
    rw [hfails] at hmore
    exact ⟨_, (hfiled.heard.of_logs _ _).trans hmore.heard⟩
  · obtain ⟨filed, hfiled⟩ := (runPasses_eq_ok_iff.mp hrun).reports h
    exact ⟨filed, hfiled.heard⟩

end

/-- What passes report in a stage is what the stage looks at in the end, and what it counts. -/
theorem stageProblems_of_reports {filed : List Problem}
    (h : (stage.begun s).diagnostics.Reports filed t.diagnostics) :
    s.since t = filed ∧ t.diagnostics.stageProblems = filed ∧
      t.diagnostics.errors = filed.countP (·.severity.isFailure) := by
  have hproblems : t.diagnostics.problems = s.diagnostics.problems ++ filed := h.heard.problems
  have hstart : t.diagnostics.stageStart = s.diagnostics.problems.length := h.stageStart
  have herrors : t.diagnostics.errors = 0 + filed.countP (·.severity.isFailure) := h.errors
  refine ⟨?_, ?_, by rw [herrors, Nat.zero_add]⟩
  · rw [Session.since, hproblems, List.drop_left]
  · rw [Diagnostics.stageProblems, hstart, hproblems, List.drop_left]

section

variable (h : ∀ pass ∈ stage.passes, pass.OnlyReports)

include h

theorem errors_eq_zero_iff (hgo : AllGo stage.name stage.passes (stage.begun s) t) :
    t.diagnostics.errors = 0 ↔ ∀ p ∈ s.since t, p.severity.isFailure = false := by
  obtain ⟨filed, hfiled⟩ := hgo.reports h
  obtain ⟨hsince, -, herrors⟩ := stageProblems_of_reports hfiled
  rw [herrors, hsince, List.countP_eq_zero]
  simp

theorem stageProblems_eq_since (hgo : AllGo stage.name stage.passes (stage.begun s) t) :
    t.diagnostics.stageProblems = s.since t := by
  obtain ⟨filed, hfiled⟩ := hgo.reports h
  obtain ⟨hsince, hstage, -⟩ := stageProblems_of_reports hfiled
  exact hstage.trans hsince.symm

theorem heard_run (s : Session) :
    ∃ filed, s.diagnostics.Heard filed (stage.run s).2.diagnostics := by
  obtain ⟨filed, hfiled⟩ := heard_runPasses h stage.name (stage.begun s)
  have hbegun : s.diagnostics.Heard [] (stage.begun s).diagnostics :=
    ((Diagnostics.Heard.refl _).of_logs _ _).of_beginStage
  have hran := hbegun.trans hfiled
  rw [run_eq]
  rcases hrun : runPasses stage.name stage.passes (stage.begun s) with ⟨_ | _, t⟩ <;>
    rw [hrun] at hran
  · exact ⟨_, hran⟩
  · exact ⟨_, hran.of_logs _ _⟩

theorem run_eq_ok_iff : stage.run s = (.ok (), t) ↔ stage.GoesWell s t := by
  rw [run_eq]
  constructor
  · intro hrun
    split at hrun
    · cases hrun
    · next u hpasses =>
      have hgo := runPasses_eq_ok_iff.mp hpasses
      obtain ⟨hnone, rfl⟩ := finish_eq_ok_iff.mp hrun
      exact ⟨u, hgo, (errors_eq_zero_iff h hgo).mp hnone, rfl⟩
  · rintro ⟨u, hgo, hfine, rfl⟩
    rw [runPasses_eq_ok_iff.mpr hgo]
    exact finish_eq_ok_iff.mpr ⟨(errors_eq_zero_iff h hgo).mpr hfine, rfl⟩

/-- The problems of the error of a stage that failed are those that were recorded since it began. -/
theorem told_run {g : GrammarError} (hrun : stage.run s = (.error (.grammar g), t)) :
    g.problems = s.since t := by
  rw [run_eq] at hrun
  split at hrun
  · next hpasses =>
    cases hrun
    obtain ⟨before, pass, after, u, hsplit, hbefore, hfails⟩ := runPasses_eq_error_iff.mp hpasses
    rw [hsplit] at h
    obtain ⟨filed, hfiled⟩ := hbefore.reports fun pass hmem => h pass (by simp [hmem])
    obtain ⟨more, hmore⟩ := h pass (by simp) (entered stage.name pass u)
    rw [hfails] at hmore
    rw [hmore.told, Diagnostics.stageProblems, hmore.stageStart]
    change List.drop u.diagnostics.stageStart _ = _
    rw [hfiled.stageStart]
    rfl
  · next u hpasses =>
    obtain ⟨-, rfl, hg⟩ := finish_eq_error_iff.mp hrun
    cases hg
    exact stageProblems_eq_since h (runPasses_eq_ok_iff.mp hpasses)

theorem run_eq_error_iff : stage.run s = (.error e, t) ↔ stage.Stops s e t := by
  constructor
  · intro hrun
    refine ⟨?_, fun g hg => told_run h (hg ▸ hrun)⟩
    rw [run_eq] at hrun
    split at hrun
    · next hpasses =>
      cases hrun
      exact .inl (runPasses_eq_error_iff.mp hpasses)
    · next u hpasses =>
      have hgo := runPasses_eq_ok_iff.mp hpasses
      obtain ⟨hsome, rfl, rfl⟩ := finish_eq_error_iff.mp hrun
      refine .inr ⟨u, hgo, ?_, rfl, ?_⟩
      · rw [Ne, errors_eq_zero_iff h hgo] at hsome
        simpa using hsome
      · rw [stageProblems_eq_since h hgo]
        rfl
  · rintro ⟨⟨before, pass, after, u, hsplit, hbefore, hfails⟩ | ⟨u, hgo, hsome, rfl, rfl⟩, -⟩
    · rw [run_eq, runPasses_eq_error_iff.mpr ⟨before, pass, after, u, hsplit, hbefore, hfails⟩]
    · rw [run_eq, runPasses_eq_ok_iff.mpr hgo]
      refine finish_eq_error_iff.mpr ⟨?_, rfl, ?_⟩
      · rw [Ne, errors_eq_zero_iff h hgo]
        simpa using hsome
      · rw [stageProblems_eq_since h hgo]
        rfl

end

end Stage

/-! ## Pipelines -/

namespace Pipeline

variable {p : Pipeline} {s t u : Session} {e : CompileError}

/-- All passes of a pipeline only report. -/
def OnlyReports (p : Pipeline) : Prop := ∀ stage ∈ p, ∀ pass ∈ stage.passes, pass.OnlyReports

/-- Stages go well one after the other. -/
inductive AllGo : Pipeline → Session → Session → Prop
  | nil (s : Session) : AllGo [] s s
  | cons {stage : Stage} {rest : Pipeline} {s t u : Session} (h : stage.GoesWell s t)
    (hrest : AllGo rest t u) : AllGo (stage :: rest) s u

/-- A pipeline stops with the first of its stages that does, and there. -/
def Stops (p : Pipeline) (s : Session) (e : CompileError) (t : Session) : Prop :=
  ∃ before stage after u, p = before ++ stage :: after ∧ AllGo before s u ∧ stage.Stops u e t

section

variable (h : p.OnlyReports)

include h

theorem heard_run (s : Session) :
    ∃ filed, s.diagnostics.Heard filed (run p s).2.diagnostics := by
  induction p generalizing s with
  | nil => exact ⟨[], .refl _⟩
  | cons stage rest ih =>
    obtain ⟨filed, hfiled⟩ := Stage.heard_run (h stage List.mem_cons_self) s
    rw [run]
    rcases hrun : stage.run s with ⟨_ | _, t⟩ <;> rw [hrun] at hfiled
    · exact ⟨filed, hfiled⟩
    · obtain ⟨more, hmore⟩ := ih (fun stage hmem => h stage (List.mem_cons_of_mem _ hmem)) t
      exact ⟨_, hfiled.trans hmore⟩

theorem run_eq_ok_iff : run p s = (.ok (), t) ↔ p.AllGo s t := by
  constructor
  · intro hrun
    induction p generalizing s with
    | nil =>
      cases hrun
      exact .nil _
    | cons stage rest ih =>
      obtain ⟨u, hstage, hrest⟩ := run_cons hrun
      exact .cons ((Stage.run_eq_ok_iff (h stage List.mem_cons_self)).mp hstage)
        (ih (fun stage hmem => h stage (List.mem_cons_of_mem _ hmem)) hrest)
  · intro hgo
    induction hgo with
    | nil s => rfl
    | @cons stage rest s t u hstage _ ih =>
      rw [run, (Stage.run_eq_ok_iff (h stage List.mem_cons_self)).mpr hstage]
      exact ih fun stage hmem => h stage (List.mem_cons_of_mem _ hmem)

theorem run_eq_error_iff : run p s = (.error e, t) ↔ p.Stops s e t := by
  constructor
  · intro hrun
    induction p generalizing s with
    | nil => cases hrun
    | cons stage rest ih =>
      have hstage := h stage List.mem_cons_self
      rw [run] at hrun
      split at hrun
      · next hstops =>
        cases hrun
        exact ⟨[], stage, rest, s, rfl, .nil s, (Stage.run_eq_error_iff hstage).mp hstops⟩
      · next u hgoes =>
        obtain ⟨before, failing, after, v, rfl, hbefore, hfails⟩ :=
          ih (fun stage hmem => h stage (List.mem_cons_of_mem _ hmem)) hrun
        exact ⟨stage :: before, failing, after, v, rfl,
          .cons ((Stage.run_eq_ok_iff hstage).mp hgoes) hbefore, hfails⟩
  · rintro ⟨before, stage, after, u, rfl, hbefore, hstops⟩
    rw [run_append, (run_eq_ok_iff fun stage hmem => h stage (by simp [hmem])).mpr hbefore]
    dsimp only
    rw [run, (Stage.run_eq_error_iff (h stage (by simp))).mpr hstops]

end

/-- Nothing that a pipeline went through was an error or fatal. -/
theorem AllGo.fine (h : p.OnlyReports) (hgo : p.AllGo s t)
    (hs : ∀ x ∈ s.diagnostics.problems, x.severity.isFailure = false) :
    ∀ x ∈ t.diagnostics.problems, x.severity.isFailure = false := by
  induction hgo with
  | nil s => exact hs
  | @cons stage rest s t u hstage _ ih =>
    have hpasses := h stage List.mem_cons_self
    refine ih (fun stage hmem => h stage (List.mem_cons_of_mem _ hmem)) ?_
    obtain ⟨v, hgo, hfine, rfl⟩ := hstage
    obtain ⟨filed, hfiled⟩ := hgo.reports hpasses
    have hproblems : v.diagnostics.problems = s.diagnostics.problems ++ filed :=
      hfiled.heard.problems
    rw [(Stage.stageProblems_of_reports hfiled).1] at hfine
    intro x hx
    change x ∈ v.diagnostics.problems at hx
    rw [hproblems, List.mem_append] at hx
    exact hx.elim (hs x) (hfine x)

end Pipeline

/-! ## The passes of a compilation -/

namespace Session

variable {s t u : Session}

/-- What was said between two sessions was reported. -/
def Tells (s t : Session) : Prop := ∃ filed, s.diagnostics.Reports filed t.diagnostics

namespace Tells

theorem of_eq (h : t.diagnostics = s.diagnostics) : s.Tells t := by
  rw [Tells, h]
  exact ⟨[], .nothing⟩

theorem refl (s : Session) : s.Tells s := of_eq rfl

theorem trans (h : s.Tells t) (h' : t.Tells u) : s.Tells u := by
  obtain ⟨filed, hfiled⟩ := h
  obtain ⟨more, hmore⟩ := h'
  exact ⟨filed ++ more, hfiled.trans hmore⟩

theorem of_report (s : Session) (p : Problem) : s.Tells (s.diagnose (·.report p)) :=
  ⟨_, .report .nothing p⟩

theorem of_logs (s : Session) (level : LogLevel) (text : String) : s.Tells (s.logs level text) :=
  ⟨_, .logs .nothing level text⟩

theorem ite {p : Prop} [Decidable p] (ht : s.Tells t) (hu : s.Tells u) :
    s.Tells (if p then t else u) := by
  split
  · exact ht
  · exact hu

theorem foldl {α : Type} {f : Session → α → Session} (hf : ∀ s a, Tells s (f s a)) (as : List α)
    (s : Session) : s.Tells (as.foldl f s) := by
  induction as generalizing s with
  | nil => exact refl s
  | cons a as ih => exact (hf s a).trans (ih _)

end Tells

theorem tells_reportStarters (s : Session) (r : StarterResolution) :
    s.Tells (s.reportStarters r) := by
  unfold reportStarters
  dsimp only
  have hunmatched : s.Tells (if r.unmatched.isEmpty then s else s.warning
      ("These rules specified in the options as starters are not defined in this grammar: "
        ++ ", ".intercalate r.unmatched) none) := .ite (.refl s) (.of_report s _)
  split
  · exact hunmatched.trans (.of_report _ _)
  · exact hunmatched

theorem tells_checkDuplicateRules (s : Session) : s.Tells s.checkDuplicateRules := by
  refine Tells.foldl (fun t r => ?_) _ s
  dsimp only
  split
  · exact .ite (.of_report t _) (.refl t)
  · exact .refl t

theorem tells_dropUnusedRules (s : Session) : s.Tells s.dropUnusedRules := by
  have hwarned (unused : List (Rule × Nat)) : s.Tells (unused.foldl (fun s r =>
      s.warning ("Rule \"" ++ r.1.name ++ "\" is not used.") r.1.location) s) :=
    .foldl (fun t r => .of_report t _) unused s
  unfold dropUnusedRules
  dsimp only
  generalize s.grammar.rules.zipIdx.filter _ = unused
  replace hwarned := hwarned unused
  split
  · exact hwarned
  · exact (hwarned.trans (.of_logs _ _ _)).trans (.of_eq rfl)

theorem tells_reduceProxy (s : Session) (index : Nat) : s.Tells (s.reduceProxy index).2 := by
  have hredirected (t : Session) (source target : String) :
      t.Tells (t.redirectReferences source target) :=
    (Tells.of_eq rfl).trans (.foldl (fun u _ => .of_report u _) _
      { t with grammar := t.grammar.redirect source target })
  have hmoved (t : Session) (source target label : String) (index : Nat) :
      t.Tells (t.moveLabel source target index label) := by
    unfold moveLabel
    split
    · exact .refl t
    · exact (Tells.of_eq rfl).trans (.of_report _ _)
  unfold reduceProxy
  split
  · next p r _ _ =>
    split
    · exact .refl s
    · next target _ =>
      have hsaid := (Tells.of_report s _).trans (hredirected (s.info ("Rule \"" ++ r.name
        ++ "\" is a proxy rule. (It will be reduced.)") r.location) r.name p.target)
      cases p.label with
      | none => exact hsaid
      | some label => exact hsaid.trans (hmoved _ _ _ _ _)
  · exact .refl s

theorem tells_elideProxies (s : Session) : s.Tells s.elideProxies := by
  have hreduced : s.Tells s.reduceProxies.2 :=
    reduceProxies_induct (P := fun _ t => s.Tells t) (.refl s) fun _ t index h =>
      h.trans (t.tells_reduceProxy index)
  unfold elideProxies
  dsimp only
  split
  · exact hreduced.trans (.of_eq rfl)
  · exact (hreduced.trans (.of_logs _ _ _)).trans (.of_eq rfl)

theorem tells_decideMemoization (s : Session) : s.Tells s.decideMemoization := by
  have hconflicts : s.Tells ((MemoPolicy.ofGrammar s.grammar).conflicts.foldl
      (fun t c => t.warning c.1 c.2) s) := .foldl (fun t c => .of_report t _) _ s
  unfold decideMemoization
  dsimp only
  generalize (MemoPolicy.ofGrammar s.grammar).conflicts.foldl _ s = t at hconflicts ⊢
  refine (hconflicts.trans ?_).trans (.of_logs _ _ _)
  -- What is said of the option comes before the decision is written down.
  refine Tells.trans (t := if _ then t.info _ _ else if _ then t.info _ _ else t) ?_ (.of_eq rfl)
  exact .ite (.of_report _ _) (.ite (.of_report _ _) (.refl _))

end Session

namespace Pass

/-- A pass that always goes well only reports if its function does. -/
theorem onlyReports_ofFunction {name : String} {f : Session → Session}
    (hf : ∀ s : Session, s.Tells (f s)) : (ofFunction name f).OnlyReports := by
  intro s
  obtain ⟨filed, hfiled⟩ := hf s
  exact ⟨filed, .well hfiled⟩

theorem onlyReports_link : link.OnlyReports := by
  intro s
  change ∃ filed, s.diagnostics.Concludes filed s.linkGrammar.1 s.linkGrammar.2.diagnostics
  unfold Session.linkGrammar
  split
  · exact ⟨_, .fatal .nothing _ _⟩
  · obtain ⟨filed, hfiled⟩ := s.tells_reportStarters (s.options.startRules.resolve s.grammar)
    exact ⟨filed, .well hfiled⟩

theorem onlyReports_bytecode : bytecode.OnlyReports := by
  intro s
  change ∃ filed, s.diagnostics.Concludes filed s.generateProgram.1 s.generateProgram.2.diagnostics
  unfold Session.generateProgram
  split
  · exact ⟨_, .broken .nothing _⟩
  · next c _ =>
    have hdefects := Session.Tells.foldl
      (fun t (d : String × Option Location) => .of_report t ⟨.error, d.1, d.2, []⟩)
      c.pools.defects.toList s
    rw [Array.foldl_toList] at hdefects
    obtain ⟨filed, hfiled⟩ := hdefects
    exact ⟨filed, .well (hfiled.logs _ _)⟩

theorem onlyReports_source : source.OnlyReports := by
  intro s
  change ∃ filed, s.diagnostics.Concludes filed s.emitSource.1 s.emitSource.2.diagnostics
  unfold Session.emitSource
  split
  · exact ⟨_, .well .nothing⟩
  · split
    · exact ⟨_, .broken .nothing _⟩
    · split
      · exact ⟨_, .broken .nothing _⟩
      · exact ⟨_, .well (.logs .nothing _ _)⟩

end Pass

/-- All passes of a compilation only report. -/
theorem Pipeline.onlyReports_standard : standard.OnlyReports := by
  have hsilent {f : Session → Session} {name : String}
      (hf : ∀ s, (f s).diagnostics = s.diagnostics) : (Pass.ofFunction name f).OnlyReports :=
    Pass.onlyReports_ofFunction fun s => .of_eq (hf s)
  have hconsumption : Pass.consumption.OnlyReports := hsilent fun s => rfl
  intro stage hstage
  simp only [standard, List.mem_cons, List.not_mem_nil, or_false] at hstage
  rcases hstage with rfl | rfl | rfl | rfl <;>
    simp only [List.forall_mem_cons, List.not_mem_nil, false_imp_iff, implies_true, and_true]
  · exact ⟨Pass.onlyReports_link, hsilent fun s => rfl, hsilent fun s => rfl⟩
  · refine ⟨Pass.onlyReports_ofFunction Session.tells_checkDuplicateRules, ?missing,
      Pass.onlyReports_ofFunction Session.tells_dropUnusedRules, hconsumption, ?recursion, ?loops,
      ?labels⟩
    case missing =>
      exact Pass.onlyReports_ofFunction fun s => .foldl (fun t _ => .of_report t _) _ s
    case recursion =>
      exact Pass.onlyReports_ofFunction fun s => .foldl (fun t _ => .of_report t _) _ s
    case loops =>
      exact Pass.onlyReports_ofFunction fun s => .foldl (fun t _ => .of_report t _) _ s
    case labels =>
      exact Pass.onlyReports_ofFunction fun s =>
        .ite (.foldl (fun t _ => .of_report t _) _ s) (.refl s)
  · exact ⟨Pass.onlyReports_ofFunction Session.tells_elideProxies, hsilent fun s => rfl,
      hconsumption, Pass.onlyReports_ofFunction Session.tells_decideMemoization⟩
  · exact ⟨Pass.onlyReports_bytecode, Pass.onlyReports_source⟩

/-! ## Compilations -/

section

variable (g : Grammar) (options : Options) (listeners : Nat)

/-- The session in which the pipeline of a compilation begins. -/
def compileStart : Session :=
  (Session.start g options listeners).logs .info (greeting g options)

theorem compile_session : (compile g options listeners).2 =
    (Pipeline.standard.run (compileStart g options listeners)).2 := by
  change (match Pipeline.standard.run (compileStart g options listeners) with
    | (.error e, s) => (Except.error e, s)
    | (.ok (), s) => (s.result, s)).2 = _
  rcases Pipeline.standard.run (compileStart g options listeners) with ⟨_ | _, t⟩ <;> rfl

variable {g options listeners}

theorem problems_of_compile {compiled : Compiled} {t : Session}
    (h : compile g options listeners = (.ok compiled, t)) :
    compiled.problems = t.diagnostics.problems := by
  have hresult := result_of_compile h
  unfold Session.result at hresult
  cases hparser : t.parser? with
  | error e =>
    rw [hparser] at hresult
    cases hresult
  | ok parser =>
    rw [hparser] at hresult
    cases hresult
    rfl

end

/-- Problems are neither lost nor misattributed. In every pipeline of passes that report problems
and pass fatal ones on, each listener hears what is recorded, in order. The pipeline goes well just
if all passes do and no stage records an error or a fatal problem; otherwise it stops behind the
first pass that fails, or at the end of the first stage with an error or a fatal problem, and the
error lists what was recorded since that stage began. A compilation is such a pipeline: its
listeners hear everything, also when it fails, and what it gives lists everything, with no error in
it and nothing fatal. -/
theorem problems_accounted :
    (∀ p : Pipeline, p.OnlyReports → ∀ s : Session,
      (∃ filed, s.diagnostics.Heard filed (p.run s).2.diagnostics) ∧
      (∀ t, p.run s = (.ok (), t) ↔ p.AllGo s t) ∧
      ∀ e t, p.run s = (.error e, t) ↔ p.Stops s e t) ∧
    ∀ (g : Grammar) (options : Options) (listeners : Nat),
      (compile g options listeners).2.diagnostics.listeners =
        List.replicate listeners (compile g options listeners).2.diagnostics.problems ∧
      ∀ compiled t, compile g options listeners = (.ok compiled, t) →
        Pipeline.standard.AllGo (compileStart g options listeners) t ∧
        compiled.problems = t.diagnostics.problems ∧
        ∀ x ∈ compiled.problems, x.severity ≠ .error ∧ x.severity ≠ .fatal := by
  refine ⟨fun p h s => ⟨Pipeline.heard_run h s, fun t => Pipeline.run_eq_ok_iff h,
    fun e t => Pipeline.run_eq_error_iff h⟩, fun g options listeners => ⟨?_, ?_⟩⟩
  · obtain ⟨filed, hfiled⟩ :=
      Pipeline.heard_run Pipeline.onlyReports_standard (compileStart g options listeners)
    rw [compile_session, hfiled.problems, hfiled.listeners]
    simp [compileStart, Session.start, Session.logs, Session.diagnose, Diagnostics.logs]
  · intro compiled t hcompile
    have hgo := (Pipeline.run_eq_ok_iff Pipeline.onlyReports_standard).mp (run_of_compile hcompile)
    have hproblems := problems_of_compile hcompile
    refine ⟨hgo, hproblems, fun x hx => ?_⟩
    have hstart : ∀ y ∈ (compileStart g options listeners).diagnostics.problems,
        y.severity.isFailure = false := fun y hy => absurd hy List.not_mem_nil
    have hfine := hgo.fine Pipeline.onlyReports_standard hstart x (hproblems ▸ hx)
    constructor <;> intro hx <;> rw [hx] at hfine <;> cases hfine

/-- A pass that has something to say of the grammar. -/
def Pass.remarks (name : String) (severity : Severity) : Pass :=
  .ofFunction name fun s => s.diagnose (·.report { severity, message := name })

theorem Pass.onlyReports_remarks (name : String) (severity : Severity) :
    (remarks name severity).OnlyReports :=
  onlyReports_ofFunction fun s => .of_report s _

/-- Two stages, the first of which reports an error between two infos. -/
def Pipeline.alarmed : Pipeline :=
  [⟨"first", [.remarks "a" .info, .remarks "b" .error, .remarks "c" .info]⟩,
    ⟨"second", [.remarks "d" .info]⟩]

/-- A grammar whose only rule refers to a letter by another rule. -/
def remarked : GrammarSource where
  rules := [⟨"start", .of (.ruleRef "letter"), [], none⟩,
    ⟨"letter", .charClass [.range 'a' 'z'] false false, [], none⟩]

/-- All of the first stage is said, and nothing of the second. The problems of a compilation that
goes well are those of the last session. -/
theorem problems_accounted_alarmed :
    Pipeline.alarmed.OnlyReports ∧
    (∃ t, Pipeline.alarmed.Stops (compileStart {} {} 2)
      (.grammar ⟨"Stage first contains errors.", none,
        [⟨.info, "a", none, []⟩, ⟨.error, "b", none, []⟩, ⟨.info, "c", none, []⟩]⟩) t ∧
      t.diagnostics.problems.length = 3) ∧
    ∃ compiled t, compile (.ofSource remarked) {} 2 = (.ok compiled, t) ∧
      compiled.problems.length = 1 ∧ compiled.problems = t.diagnostics.problems := by
  have hreports : Pipeline.alarmed.OnlyReports := by
    intro stage hstage pass hpass
    simp only [Pipeline.alarmed, List.mem_cons, List.not_mem_nil, or_false] at hstage
    rcases hstage with rfl | rfl <;>
      simp only [List.mem_cons, List.not_mem_nil, or_false] at hpass
    · rcases hpass with rfl | rfl | rfl <;> exact Pass.onlyReports_remarks _ _
    · exact hpass ▸ Pass.onlyReports_remarks _ _
  have hcompiles : (compile (.ofSource remarked) {} 2).1.isOk = true ∧
      (compile (.ofSource remarked) {} 2).2.diagnostics.problems.length = 1 := by decide +kernel
  obtain ⟨hpipelines, hcompilations⟩ := problems_accounted
  obtain ⟨compiled, hcompiled⟩ := exists_compiled hcompiles.1
  have hproblems := ((hcompilations _ _ _).2 _ _ hcompiled).2.1
  refine ⟨hreports, ⟨_, ((hpipelines _ hreports _).2.2 _ _).mp rfl, rfl⟩, compiled, _, hcompiled,
    ?_, hproblems⟩
  rw [hproblems]
  exact hcompiles.2

/-- A fatal problem that is reported, and not passed on, makes a stage fail although no pass failed
and no error was recorded. -/
theorem reported_fatal_fails :
    let p : Pipeline := [⟨"s", [.remarks "f" .fatal]⟩]
    let s := Session.start {} {} 1
    p.OnlyReports ∧ (∀ stage ∈ p, ∀ pass ∈ stage.passes, ∀ t, (pass.run t).1 = .ok ()) ∧
      (∀ x ∈ (p.run s).2.diagnostics.problems, x.severity ≠ .error) ∧ (p.run s).1 ≠ .ok () := by
  refine ⟨?_, ?_, ?_, nofun⟩
  · intro stage hstage pass hpass
    obtain rfl := List.mem_singleton.mp hstage
    obtain rfl := List.mem_singleton.mp hpass
    exact Pass.onlyReports_remarks _ _
  · intro stage hstage pass hpass t
    obtain rfl := List.mem_singleton.mp hstage
    obtain rfl := List.mem_singleton.mp hpass
    rfl
  · intro x hx
    obtain rfl := List.mem_singleton.mp hx
    nofun

end PegMachine
