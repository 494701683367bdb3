import PegMachine.Proofs.Balanced
import PegMachine.Proofs.Resolved
import PegMachine.Proofs.Upkeep
import PegMachine.Proofs.WellFormedCode

/-!
# The grammar is to blame

A compilation that fails blames the grammar. It blames itself only where code for a grammar cannot
be generated or unrolled, and for a grammar that went through the earlier stages both can be done,
as long as no choice is without alternatives: the checks do not look for that.
-/

namespace PegMachine

/-- If something fails, the grammar is to blame. -/
def BlamesGrammar {α : Type} (result : Except CompileError α) : Prop :=
  ∀ e, result = .error e → ∃ report, e = .grammar report

theorem blamesGrammar_ok {α : Type} (a : α) : BlamesGrammar (.ok a) := nofun

/-- It does not matter what an error is an error instead of. -/
theorem BlamesGrammar.error {α β : Type} {e : CompileError}
    (h : BlamesGrammar (.error e : Except CompileError α)) :
    BlamesGrammar (.error e : Except CompileError β) := by
  rintro _ ⟨⟩
  exact h e rfl

/-! ## Stages before code is generated -/

/-- One thing after the other blames the grammar if both do. -/
theorem BlamesGrammar.andThen {out : Verdict × Session} {next : Session → Verdict × Session} :
    BlamesGrammar out.1 → (∀ s, BlamesGrammar (next s).1) → BlamesGrammar (match out with
      | (.error e, s) => (.error e, s)
      | (.ok (), s) => next s : Verdict × Session).1 := by
  intro h hnext
  obtain ⟨v, s⟩ := out
  cases v with
  | error e => exact fun e' he' => h e' he'
  | ok => exact hnext s

/-- Errors that were reported in a stage blame the grammar. -/
theorem Stage.finish_blamesGrammar (stage : String) (s : Session) :
    BlamesGrammar (finish stage s).1 := by
  intro e he
  rw [finish] at he
  generalize Diagnostics.endStage _ _ = verdict at he
  cases verdict with
  | error report => exact ⟨report, (Except.error.inj he).symm⟩
  | ok => cases he

/-- A stage blames the grammar if its passes do. -/
theorem Stage.run_blamesGrammar {stage : Stage}
    (h : ∀ pass ∈ stage.passes, ∀ s, BlamesGrammar (pass.run s).1) (s : Session) :
    BlamesGrammar (stage.run s).1 := by
  have hpasses (passes : List Pass) (h : ∀ pass ∈ passes, ∀ s, BlamesGrammar (pass.run s).1)
      (s : Session) : BlamesGrammar (runPasses stage.name passes s).1 := by
    induction passes generalizing s with
    | nil => exact blamesGrammar_ok ()
    | cons pass rest ih =>
      rw [runPasses]
      exact (h pass List.mem_cons_self _).andThen
        (ih fun pass hpass => h pass (List.mem_cons_of_mem _ hpass))
  rw [run]
  exact (hpasses stage.passes h _).andThen (finish_blamesGrammar stage.name)

theorem Pipeline.run_blamesGrammar {p : Pipeline}
    (h : ∀ pass ∈ p.passes, ∀ s, BlamesGrammar (pass.run s).1) (s : Session) :
    BlamesGrammar (p.run s).1 := by
  induction p generalizing s with
  | nil => exact blamesGrammar_ok ()
  | cons stage rest ih =>
    rw [run]
    have hstage := Stage.run_blamesGrammar
      (fun pass hpass => h pass (List.mem_append_left _ hpass)) s
    exact hstage.andThen (ih fun pass hpass => h pass (List.mem_append_right _ hpass))

/-- The stages that a grammar goes through before code is generated for it. -/
def Pipeline.beforeCode : Pipeline := standard.dropLast

/-- Most passes always go well, and linking only fails for a grammar without rules. -/
theorem Pipeline.beforeCode_blamesGrammar (s : Session) : BlamesGrammar (beforeCode.run s).1 := by
  refine run_blamesGrammar (fun pass hpass s => ?_) s
  have hcases : pass = .link ∨ ∃ name f, pass = .ofFunction name f := by
    simp only [passes, beforeCode, standard, List.dropLast, List.flatMap_cons, List.flatMap_nil,
      List.cons_append, List.nil_append, List.mem_cons, List.not_mem_nil, or_false] at hpass
    rcases hpass with rfl | hpass
    · exact .inl rfl
    · right
      rcases hpass with rfl | rfl | rfl | rfl | rfl | rfl | rfl | rfl | rfl | rfl | rfl | rfl | rfl
      all_goals exact ⟨_, _, rfl⟩
  rcases hcases with rfl | ⟨name, f, rfl⟩
  · change BlamesGrammar s.linkGrammar.1
    unfold Session.linkGrammar
    split
    · exact fun e he => ⟨_, (Except.error.inj he).symm⟩
    · exact blamesGrammar_ok ()
  · exact blamesGrammar_ok ()

/-! ## What code is generated for -/

section

variable {g : Grammar} {options : Options} {s t : Session}

/-- A grammar that went through the stages before code is generated has nothing in it that code
cannot be generated for. -/
theorem Pipeline.viable_of_beforeCode (htrees : g.HasTrees)
    (hchoices : ∀ x, g.shape x ≠ .choice []) (h : Upkeep g options 0 s)
    (hrun : beforeCode.run s = (.ok (), t)) : t.UpToDate ∧ t.grammar.HasTrees ∧
      ∀ r ∈ t.grammar.rules, ∀ x, t.grammar.Below r.expression x →
        Generate.Viable t.facts t.grammar x := by
  obtain ⟨u, hprepare, hrun⟩ := run_cons hrun
  obtain ⟨v, hcheck, hrun⟩ := run_cons hrun
  obtain ⟨w, htransform, hend⟩ := run_cons hrun
  obtain rfl : w = t := congrArg Prod.snd hend
  obtain ⟨hv, p, hp⟩ := Checked.of_run htrees h hprepare hcheck
  have hw := Upkeep.run_stage (standard.take 2) rfl htrees hv htransform
  obtain ⟨x, hxgrammar, hxfacts, hwgrammar, -⟩ := Accepted.of_transform htransform
  have hx : Checked g options p x := hp.congr hxgrammar hxfacts
  have hwresolved : w.grammar.Resolved := by
    rw [hwgrammar]
    exact hx.upToDate.resolved_elideProxies hx.resolved hx.needed
  have hwtrees : w.grammar.HasTrees := by
    rw [hwgrammar]
    exact Session.hasTrees_elideProxies (hx.hasTrees htrees)
  have hwlinked := hw.linked (by decide)
  refine ⟨hwlinked, hwtrees, fun r hr y hbelow => ⟨fun name hshape => ?_, ?_⟩⟩
  · obtain ⟨index, hindex⟩ := List.mem_iff_getElem?.mp hr
    rw [hwlinked.links.target?_eq hindex (hwtrees r hr) hbelow hshape]
    exact hwresolved y name ⟨r, hr, hbelow⟩ hshape
  · rw [hwgrammar]
    refine Session.shapes_elideProxies (P := (· ≠ .choice [])) nofun nofun (fun id => ?_) y
    rw [hx.grammar, Session.dropUnusedRules_grammar, hx.prepared]
    exact hchoices id

end

/-! ## Generating code and unrolling it -/

section

variable {P : Program} {s : Session} {code : Generated}

/-- A program whose code is well formed can be unrolled. -/
theorem Program.exists_routines (h : ∀ r ∈ P.rules, ∃ is, P.WellFormedCode r.code is) :
    ∃ rs, P.routines = .ok rs := by
  have hfrom (rules : List Program.Rule) (hrules : ∀ r ∈ rules, ∃ is, P.WellFormedCode r.code is)
      (index : Nat) : ∃ rs, Routine.unrollFrom index rules = .ok rs := by
    induction rules generalizing index with
    | nil => exact ⟨[], rfl⟩
    | cons r rest ih =>
      obtain ⟨is, his⟩ := hrules r List.mem_cons_self
      obtain ⟨first, hfirst⟩ := his.unrolls index r.name
      obtain ⟨others, hothers⟩ := ih (fun r hr => hrules r (List.mem_cons_of_mem _ hr)) (index + 1)
      refine ⟨first :: others, ?_⟩
      simp only [Routine.unrollFrom, hfirst, hothers]
      rfl
  obtain ⟨rs, hrs⟩ := hfrom P.rules.toList (fun r hr => h r (Array.mem_def.mpr hr)) 0
  exact ⟨rs.toArray, by rw [routines, hrs]; rfl⟩

theorem Stage.runPasses_singleton (stage : String) (pass : Pass) (s : Session) :
    runPasses stage [pass] s = pass.run (s.logs .debug ("pass " ++ stage ++ "." ++ pass.name)) := by
  rw [runPasses]
  rcases pass.run (s.logs .debug ("pass " ++ stage ++ "." ++ pass.name)) with ⟨_ | _, _⟩ <;> rfl

/-- Where code can be generated, the program is there when source is emitted. -/
theorem Session.exists_emitSource (hcode : s.facts.generate s.grammar = .ok code) : ∃ t : Session,
    t.program = some (code.program s.grammar s.facts s.options.trace) ∧
      Stage.run ⟨"generate", [.bytecode, .source]⟩ s = match t.emitSource with
        | (.error e, t) => (.error e, t)
        | (.ok (), t) => Stage.finish "generate" t := by
  have hgenerated (u : Session) (hgrammar : u.grammar = s.grammar) (hfacts : u.facts = s.facts)
      (hoptions : u.options = s.options) : ∃ t, Pass.bytecode.run u = (.ok (), t) ∧
        t.program = some (code.program s.grammar s.facts s.options.trace) := by
    rw [← hgrammar, ← hfacts] at hcode
    have hkeeps := Accepted.keeps_defects u code.pools.defects
    change ∃ t, u.generateProgram = (.ok (), t) ∧ _
    unfold generateProgram
    rw [hcode]
    refine ⟨_, rfl, congrArg some ?_⟩
    rw [← hgrammar, ← hfacts, ← hoptions, ← hkeeps.grammar, ← hkeeps.facts, ← hkeeps.options]
    rfl
  obtain ⟨t, ht, hprogram⟩ := hgenerated (((Stage.mk "generate" [.bytecode, .source]).begun s).logs
    .debug ("pass " ++ "generate" ++ "." ++ Pass.bytecode.name)) rfl rfl rfl
  refine ⟨t.logs .debug ("pass " ++ "generate" ++ "." ++ Pass.source.name), hprogram, ?_⟩
  have hpasses : Stage.runPasses "generate" [.bytecode, .source]
      ((Stage.mk "generate" [.bytecode, .source]).begun s) =
        (t.logs .debug ("pass " ++ "generate" ++ "." ++ Pass.source.name)).emitSource := by
    rw [Stage.runPasses, ht]
    exact Stage.runPasses_singleton "generate" .source t
  rw [← hpasses]
  rfl

/-- Source is emitted for a program that can be unrolled. -/
theorem Session.emitSource_blamesGrammar (hprogram : s.program = some P)
    (hroutines : ∃ rs, P.routines = .ok rs) : BlamesGrammar s.emitSource.1 := by
  obtain ⟨rs, hrs⟩ := hroutines
  have hsource (optimize : Optimize) :
      ∃ source, Emit.source s.grammar s.facts P optimize = .ok source := by
    cases optimize with
    | size => exact ⟨_, rfl⟩
    | speed => exact ⟨_, by rw [Emit.source, hrs]; rfl⟩
  obtain ⟨source, hsource⟩ := hsource s.options.optimize
  unfold emitSource
  split
  · exact blamesGrammar_ok ()
  · rw [hprogram]
    dsimp only
    rw [hsource]
    exact blamesGrammar_ok ()

/-- Where code can be generated, there is a program in the end, and what fails is not its fault if
it can be unrolled. -/
theorem Session.exists_program (hcode : s.facts.generate s.grammar = .ok code) : ∃ v t,
    Stage.run ⟨"generate", [.bytecode, .source]⟩ s = (v, t) ∧
      t.program = some (code.program s.grammar s.facts s.options.trace) ∧
      ((∃ rs, (code.program s.grammar s.facts s.options.trace).routines = .ok rs) →
        BlamesGrammar v) := by
  obtain ⟨u, hprogram, hgenerate⟩ := exists_emitSource hcode
  rw [hgenerate, ← hprogram]
  have hblames := emitSource_blamesGrammar hprogram
  rcases hemit : u.emitSource with ⟨e | _, w⟩
  · rw [hemit] at hblames
    exact ⟨_, w, rfl, (Accepted.emitSource_keeps hemit).2.2, hblames⟩
  · exact ⟨_, _, rfl, (Accepted.emitSource_keeps hemit).2.2,
      fun _ => Stage.finish_blamesGrammar "generate" w⟩

/-- There is a parser for a program that can be unrolled. -/
theorem Session.result_blamesGrammar (hprogram : s.program = some P)
    (hroutines : ∃ rs, P.routines = .ok rs) : BlamesGrammar s.result := by
  obtain ⟨rs, hrs⟩ := hroutines
  have hparser : ∃ parser, s.parser? = .ok parser := by
    unfold parser?
    split
    · exact ⟨none, rfl⟩
    · rw [hprogram]
      cases s.options.optimize with
      | size => exact ⟨_, rfl⟩
      | speed =>
        obtain ⟨parser, hunrolled⟩ : ∃ parser, Parser.unrolled P = .ok parser :=
          ⟨_, by rw [Parser.unrolled, hrs]; rfl⟩
        exact ⟨some parser, by simp only [hunrolled]⟩
  obtain ⟨parser, hparser⟩ := hparser
  rw [result, hparser]
  exact blamesGrammar_ok _

end

/-- A compilation that fails blames the grammar, as long as no choice is without alternatives: for
what goes through the stages before, code can be generated and unrolled. -/
theorem compile_blamesGrammar (source : GrammarSource) (options : Options) (listeners : Nat)
    (hchoices : ∀ x, (Grammar.ofSource source).shape x ≠ .choice [])
    (hfit : ∀ P, (compile (.ofSource source) options listeners).2.program = some P →
      P.Addressable) :
    let g := Grammar.ofSource source
    (∀ s, Pipeline.beforeCode.run ((Session.start g options listeners).logs .info
        (greeting g options)) = (.ok (), s) →
      ∃ code rs, s.facts.generate s.grammar = .ok code ∧
        (code.program s.grammar s.facts s.options.trace).routines = .ok rs) ∧
    BlamesGrammar (compile g options listeners).1 := by
  intro g
  have htrees := Grammar.ofSource_hasTrees source
  have hbegin := Upkeep.begin g options listeners
  rw [compile] at hfit ⊢
  generalize (Session.start g options listeners).logs .info (greeting g options) = s
    at hbegin hfit ⊢
  have hsplit := Pipeline.run_append .beforeCode [⟨"generate", [.bytecode, .source]⟩] s
  change Pipeline.standard.run s = _ at hsplit
  have hblames := Pipeline.beforeCode_blamesGrammar s
  rw [hsplit] at hfit ⊢
  rcases hrun : Pipeline.beforeCode.run s with ⟨e | _, t⟩
  · rw [hrun] at hblames
    refine ⟨fun u hu => ?_, hblames.error⟩
    cases congrArg Prod.fst hu
  · rw [hrun] at hfit
    obtain ⟨hlinked, htrees, hviable⟩ := Pipeline.viable_of_beforeCode htrees hchoices hbegin hrun
    obtain ⟨code, hcode⟩ := Facts.exists_generated htrees hviable
    obtain ⟨v, u, hgenerate, hprogram, hblames⟩ := Session.exists_program hcode
    dsimp only at hfit ⊢
    rw [Pipeline.run, hgenerate] at hfit ⊢
    generalize hP : code.program t.grammar t.facts t.options.trace = P at hprogram hblames
    have hfits : P.Addressable := hfit P (by cases v <;> exact hprogram)
    have hroutines : ∃ rs, P.routines = .ok rs := Program.exists_routines fun r hr =>
      Facts.generate_wellFormed hcode hlinked.links.refers.resolves
        (hP ▸ Generated.program_carries hcode _) hfits r hr
    refine ⟨fun w hw => ?_, ?_⟩
    · obtain rfl : t = w := congrArg Prod.snd hw
      obtain ⟨rs, hrs⟩ := hroutines
      exact ⟨code, rs, hcode, hP ▸ hrs⟩
    · cases v with
      | error e => exact (hblames hroutines).error
      | ok => exact Session.result_blamesGrammar hprogram hroutines

/-- The parser for a grammar with a rule that stands for another one can be unrolled. -/
theorem proxied_blamesGrammar :
    (compile (.ofSource proxied) { optimize := .speed } 0).1.isOk = true ∧
      BlamesGrammar (compile (.ofSource proxied) { optimize := .speed } 0).1 := by
  have hends : (compile (.ofSource proxied) { optimize := .speed } 0).1.isOk = true ∧
      ((compile (.ofSource proxied) { optimize := .speed } 0).2.program.all fun P =>
        P.rules.toList.all (·.code.size < 2 ^ 32) && P.constants.size ≤ 2 ^ 32 &&
          P.actions.size ≤ 2 ^ 32 && P.rules.size ≤ 2 ^ 32) = true := by
    decide +kernel
  refine ⟨hends.1, (compile_blamesGrammar proxied { optimize := .speed } 0 ?_ ?_).2⟩
  · refine Grammar.forall_shape (P := (· ≠ .choice [])) nofun ?_
    decide +kernel
  · intro P hP
    have hfits := hends.2
    rw [hP] at hfits
    simp only [Option.all_some, Bool.and_eq_true, List.all_eq_true, decide_eq_true_eq] at hfits
    obtain ⟨⟨⟨hcode, hconstants⟩, hactions⟩, hrules⟩ := hfits
    exact ⟨fun r hr => hcode r (Array.mem_def.mp hr), hconstants, hactions, hrules⟩

/-- A grammar with a choice that has no alternatives. -/
def emptyChoice : GrammarSource where
  rules := [⟨"start", .of (.choice []), [], none⟩]

/-- All checks accept it, and then no code can be generated for it. -/
theorem emptyChoice_not_blamesGrammar :
    ¬BlamesGrammar (compile (.ofSource emptyChoice) {} 0).1 := by
  intro h
  have hinternal : (match (compile (.ofSource emptyChoice) {} 0).1 with
    | .error (.internal _) => true
    | _ => false) = true := by decide +kernel
  split at hinternal
  · next message hresult =>
    obtain ⟨report, hreport⟩ := h _ hresult
    cases hreport
  · cases hinternal

end PegMachine
