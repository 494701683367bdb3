import PegMachine.Proofs.Policy

/-!
# Emitted source

The source text that a compilation gives is emitted for the program, the grammar and the facts that
are there in the end. The parts of a layout close the blocks that they open, so each of them is
written as if it stood alone.
-/

namespace PegMachine

/-! ## Where the source comes from -/

/-- A compilation that goes well ends with the options that it was given. -/
theorem options_of_compile {g : Grammar} {options : Options} {listeners : Nat} {compiled : Compiled}
    {s : Session} (h : compile g options listeners = (.ok compiled, s)) : s.options = options := by
  have hsaid : SaidOnly fun _ s => s.options = options :=
    fun _ _ _ _ _ hoptions hs => hoptions.trans hs
  refine (Pipeline.steps_induct (n := 0) hsaid (fun i pass hpass => ?_) rfl).2 s (run_of_compile h)
  intro s v t hs hrun _
  exact (options_of_pass hpass hrun).trans hs

namespace Session

variable {s t : Session}

/-- Source that is asked for is emitted for the program that there is. -/
theorem emitSource_eq_ok (h : s.emitSource = (.ok (), t))
    (hwants : s.options.output.wants .source = true) : ∃ P text, s.program = some P ∧
      Emit.source s.grammar s.facts P s.options.optimize = .ok text ∧ t.source = some text := by
  unfold emitSource at h
  rw [if_neg (by simp [hwants])] at h
  split at h
  · cases h
  · next P hP =>
    split at h
    · cases h
    · next text htext =>
      cases h
      exact ⟨P, text, hP, htext, rfl⟩

/-- The result of a session has its source. -/
theorem source_of_result {compiled : Compiled} (h : s.result = .ok compiled) :
    compiled.source = s.source := by
  unfold result at h
  cases hparser : s.parser? with
  | error e =>
    rw [hparser] at h
    cases h
  | ok parser =>
    rw [hparser] at h
    cases h
    rfl

end Session

/-- The source is there when the passes of a stage ran. -/
theorem Stage.source_of_run {stage : Stage} {s t u : Session} (h : stage.run s = (.ok (), t))
    (hpasses : runPasses stage.name stage.passes (stage.begun s) = (.ok (), u)) :
    t.source = u.source := by
  rw [Stage.run] at h
  split at h
  · cases h
  · next v hv =>
    obtain rfl : u = v := congrArg Prod.snd (hpasses.symm.trans hv)
    obtain rfl : (Stage.finish stage.name u).2 = t := congrArg Prod.snd h
    rfl

/-- Where source is asked for, the last stage emits it for the program that there is in the end. -/
theorem Stage.emits_of_generate {s t : Session}
    (h : Stage.run ⟨"generate", [.bytecode, .source]⟩ s = (.ok (), t))
    (hwants : t.options.output.wants .source = true) : ∃ P text, t.program = some P ∧
      Emit.source t.grammar t.facts P t.options.optimize = .ok text ∧ t.source = some text := by
  obtain ⟨u, hpasses, hkeeps, -⟩ := Stage.run_eq_ok h
  have hsource : t.source = u.source := Stage.source_of_run h hpasses
  obtain ⟨u₁, u₂, -, -, hpasses⟩ := runPasses_cons hpasses
  obtain ⟨u₃, u₄, hkeeps₃, hemit, hpasses⟩ := runPasses_cons hpasses
  obtain rfl := runPasses_nil hpasses
  obtain ⟨hgrammar, hfacts, hprogram⟩ := Accepted.emitSource_keeps hemit
  have hoptions : t.options = u₃.options :=
    hkeeps.options.trans (Session.emitSource_options hemit)
  obtain ⟨P, text, hP, htext, htold⟩ := Session.emitSource_eq_ok hemit (hoptions ▸ hwants)
  refine ⟨P, text, ?_, ?_, hsource.trans htold⟩
  · rw [hkeeps.program, hprogram, hP]
  · rw [hkeeps.grammar, hkeeps.facts, hgrammar, hfacts, hoptions, htext]

/-- A compilation that goes well and is asked for source gives the source text of the program that
there is in the end. -/
theorem emits_of_compile {g : Grammar} {options : Options} {listeners : Nat} {compiled : Compiled}
    {s : Session} (h : compile g options listeners = (.ok compiled, s))
    (hwants : options.output.wants .source = true) : ∃ P text, s.program = some P ∧
      Emit.source s.grammar s.facts P options.optimize = .ok text ∧
      compiled.source = some text := by
  have hoptions := options_of_compile h
  have hresult := result_of_compile h
  obtain ⟨s₁, -, hrun⟩ := Pipeline.run_cons (run_of_compile h)
  obtain ⟨s₂, -, hrun⟩ := Pipeline.run_cons hrun
  obtain ⟨s₃, -, hrun⟩ := Pipeline.run_cons hrun
  obtain ⟨s₄, hgenerate, hrun⟩ := Pipeline.run_cons hrun
  cases hrun
  obtain ⟨P, text, hP, htext, hsource⟩ := Stage.emits_of_generate hgenerate (hoptions ▸ hwants)
  exact ⟨P, text, hP, hoptions ▸ htext, (Session.source_of_result hresult).trans hsource⟩

namespace Emit

namespace Layout

variable {a b l : Layout} {d : Nat}

/-! ## Parts of a layout -/

/-- The depth that some lines leave, given the depth that the lines before them leave. -/
def leaves (d : Nat) (l : Layout) : Nat := l.foldl Line.depthAfter d

theorem leaves_append : leaves d (a ++ b) = leaves (leaves d a) b := List.foldl_append

theorem writtenFrom_append :
    writtenFrom d (a ++ b) = writtenFrom d a ++ writtenFrom (leaves d a) b := by
  induction a generalizing d with
  | nil => rfl
  | cons line rest ih => exact congrArg (_ :: ·) ih

/-- Every block that is opened is closed, and no other one. -/
def Balanced (l : Layout) : Prop := ∀ d, leaves d l = d

theorem Balanced.append (ha : Balanced a) (hb : Balanced b) : Balanced (a ++ b) := fun d => by
  rw [leaves_append, ha, hb]

theorem balanced_plain {α : Type} (f : α → String) (as : List α) :
    Balanced (as.map fun a => .plain (f a)) := fun d => by
  induction as with
  | nil => rfl
  | cons a rest ih => exact ih

theorem balanced_flatMap {α : Type} {f : α → Layout} {as : List α} (h : ∀ x ∈ as, Balanced (f x)) :
    Balanced (as.flatMap f) := by
  induction as with
  | nil => exact fun d => rfl
  | cons x rest ih =>
    obtain ⟨hx, hrest⟩ := List.forall_mem_cons.mp h
    exact hx.append (ih hrest)

/-- What is inside of a block may go out of it and in again. -/
theorem balanced_enclosed (h : ∀ d, leaves (d + 1) l = d + 1) (first last : String) :
    Balanced (enclosed first l last) := fun d => by
  rw [enclosed, leaves_append, leaves_append]
  exact congrArg (· - 1) (h d)

theorem Balanced.enclosed (h : Balanced l) (first last : String) :
    Balanced (enclosed first l last) := balanced_enclosed (fun d => h (d + 1)) first last

theorem Balanced.braced (h : Balanced l) (heading : String) : Balanced (braced heading l) :=
  h.enclosed _ _

theorem balanced_ofText (text : String) : Balanced (ofText text) := balanced_plain _ _

/-- What follows a part that closes its blocks is written as if nothing was in front of it. -/
theorem Balanced.written_append (h : Balanced a) : (a ++ b).written = a.written ++ b.written := by
  rw [written, writtenFrom_append, h 0, List.map_append, String.join_append]
  rfl

theorem written_flatMap {α : Type} {f : α → Layout} {as : List α} (h : ∀ x ∈ as, Balanced (f x)) :
    written (as.flatMap f) = String.join (as.map fun x => (f x).written) := by
  induction as with
  | nil => rfl
  | cons x rest ih =>
    obtain ⟨hx, hrest⟩ := List.forall_mem_cons.mp h
    rw [List.flatMap_cons, hx.written_append, ih hrest, List.map_cons, String.join_cons]

end Layout

open Layout

/-! ## The common part -/

theorem balanced_initializer (g : Grammar) : (initializer g).Balanced := by
  unfold initializer
  split
  · exact fun d => rfl
  · next code _ =>
    split
    · exact fun d => rfl
    · exact (balanced_ofText code).append fun d => rfl

theorem balanced_heading (g : Grammar) (backend : String) : (heading g backend).Balanced :=
  Balanced.append (fun _ => rfl) (balanced_initializer g)

theorem balanced_table (items : List String) : (table items).Balanced :=
  (balanced_plain _ _).enclosed _ _

theorem balanced_programFunction (p : Program) (withCode : Bool) :
    (programFunction p withCode).Balanced := by
  have hparts : (programParts p withCode).Balanced :=
    (((balanced_table _).append (balanced_table _)).append (balanced_table _)).append fun _ => rfl
  refine Balanced.append (.append (fun _ => rfl) (Balanced.braced ?_ _)) fun _ => rfl
  exact Balanced.append (fun _ => rfl) ((hparts.enclosed _ _).enclosed _ _)

theorem balanced_actionHandler (actions : List Program.Action) :
    (actionHandler actions).Balanced := by
  refine (((Balanced.append ?_ fun _ => rfl).braced _).braced _).braced _
  exact balanced_plain (fun r : Program.Action × Nat => (actionCase r.2 r.1).text) actions.zipIdx

theorem balanced_actionFunction (index : Nat) (a : Program.Action) :
    (actionFunction index a).Balanced :=
  Balanced.append (fun _ => rfl) ((balanced_ofText a.code).braced _)

/-- The functions of the actions, one after the other. -/
def actionFunctions (actions : List Program.Action) : Layout :=
  actions.zipIdx.flatMap fun (a, index) => actionFunction index a

theorem balanced_actionFunctions (actions : List Program.Action) :
    (actionFunctions actions).Balanced :=
  balanced_flatMap fun (r : Program.Action × Nat) _ => balanced_actionFunction r.2 r.1

/-- The lines in front of the handler of the actions. -/
def actionHeading : Layout :=
  [.plain "/// Runs the grammar's actions, predicates and code terminals",
   .plain "#[derive(Debug, Clone, Copy, Default)]",
   .plain "pub struct Actions;",
   blank]

theorem actionParts_eq (actions : List Program.Action) : actionParts actions =
    actionHeading ++ actionHandler actions ++ actionFunctions actions ++ [blank] := rfl

theorem balanced_actionParts (actions : List Program.Action) : (actionParts actions).Balanced :=
  Balanced.append (.append (.append (fun _ => rfl) (balanced_actionHandler actions))
    (balanced_actionFunctions actions)) fun _ => rfl

theorem balanced_commonPart (g : Grammar) (p : Program) (backend : String) (withCode : Bool) :
    (commonPart g p backend withCode).Balanced :=
  (((balanced_heading g backend).append (balanced_programFunction p withCode)).append
    (balanced_actionParts _)).append fun _ => rfl

/-- Whatever follows the common part, the functions of the actions are in it. -/
theorem written_commonPart_append (g : Grammar) (p : Program) (backend : String) (withCode : Bool)
    (rest : Layout) : ∃ before after, (commonPart g p backend withCode ++ rest).written =
      before ++ (actionFunctions p.actions.toList).written ++ after := by
  let front : Layout := heading g backend ++ programFunction p withCode ++ actionHeading ++
    actionHandler p.actions.toList
  let behind : Layout := [blank] ++ entryPoints ++ rest
  have hfront : front.Balanced := (((balanced_heading g backend).append
    (balanced_programFunction p withCode)).append fun _ => rfl).append (balanced_actionHandler _)
  have hsplit : commonPart g p backend withCode ++ rest =
      front ++ actionFunctions p.actions.toList ++ behind := by
    simp only [commonPart, actionParts_eq, front, behind, List.append_assoc]
  refine ⟨front.written, behind.written, ?_⟩
  rw [hsplit, (hfront.append (balanced_actionFunctions _)).written_append, hfront.written_append]

/-- A fast parser is emitted for the routines of the program. -/
theorem source_speed_eq_ok {g : Grammar} {f : Facts} {P : Program} {text : String}
    (h : source g f P .speed = .ok text) :
    ∃ rs, P.routines = .ok rs ∧ text = (routineLayout g f P rs.toList).written := by
  unfold source at h
  cases hrs : P.routines with
  | error e =>
    rw [hrs] at h
    cases h
  | ok rs =>
    rw [hrs] at h
    exact ⟨rs, rfl, (Except.ok.inj h).symm⟩

/-- The functions of the actions are in the source text, whichever parser it is of. -/
theorem source_holds_actions {g : Grammar} {f : Facts} {P : Program} {optimize : Optimize}
    {text : String} (h : source g f P optimize = .ok text) :
    ∃ before after, text = before ++ (actionFunctions P.actions.toList).written ++ after := by
  cases optimize with
  | size =>
    obtain rfl := Except.ok.inj h
    exact written_commonPart_append g P "interpreter" true _
  | speed =>
    obtain ⟨rs, -, rfl⟩ := source_speed_eq_ok h
    simp only [routineLayout, List.append_assoc]
    exact written_commonPart_append g P "inline" false _

end Emit

end PegMachine
