import PegMachine.Proofs.Furthest
import PegMachine.Proofs.Slicing

/-!
# Reports of the end of the input

A syntax error with the standard message calls what was found the end of the input if it has no text
to show. There are two ways to come to such an error. The report of the furthest failure shows the
character there, and there is none just at the end of the input. An action that ends the parse is
reported with the text that it was given; the place of this text may be empty wherever it is, and
then the message speaks of the end of the input in the middle of it.
-/

namespace PegMachine

/-! ## What messages call the end of the input -/

namespace SyntaxError

variable {e : SyntaxError}

/-- The message reports that the end of the input was found. -/
def ReportsEnd (e : SyntaxError) : Prop :=
  e.message = "Unexpected end of input." ∨
    ∃ wanted, e.message = "Expected " ++ wanted ++ " but end of input found."

theorem describeFound_of_empty {found : Option String} (hempty : found.getD "" = "") :
    describeFound found = "end of input" := by
  cases found with
  | none => rfl
  | some text =>
    obtain rfl : text = "" := hempty
    rfl

theorem describeFound_of_ne {found : Option String} (hne : found.getD "" ≠ "") :
    ∃ text, describeFound found = "\"" ++ text ++ "\"" := by
  cases found with
  | none => exact absurd rfl hne
  | some text =>
    refine ⟨Text.escape text, ?_⟩
    rw [describeFound, if_neg (by simpa using hne)]
    rfl

/-- The standard message reports the end of the input if there is no text to show. -/
theorem reportsEnd_iff (hstandard : e.message = messageFor e.expected e.found) :
    e.ReportsEnd ↔ e.found.getD "" = "" := by
  rw [ReportsEnd, hstandard, messageFor]
  by_cases hempty : e.found.getD "" = ""
  · rw [describeFound_of_empty hempty]
    refine iff_of_true ?_ hempty
    split
    · exact .inl rfl
    · next wanted _ => exact .inr ⟨wanted, by simp [String.append_assoc]⟩
  · obtain ⟨text, htext⟩ := describeFound_of_ne hempty
    rw [htext]
    refine iff_of_false ?_ hempty
    -- A message that shows a text has other last characters.
    split <;> rintro (h | ⟨wanted, h⟩)
    all_goals
      have hends := congrArg (fun message => (String.toList message).reverse) h
      simp at hends

/-- An error tells the text of a span of the input, and where that is. -/
def TellsSpan (input : Input) (e : SyntaxError) : Prop :=
  ∃ a b, input.Inside a ∧ input.Inside b ∧ a ≤ b ∧ e.found = some (input.slice a b) ∧
    e.location = .ofRange input a b

end SyntaxError

theorem Location.offset_ofRange {input : Input} {a b : Nat} (ha : a ≤ input.size)
    (hb : b ≤ input.size) :
    (ofRange input a b).start.offset = a ∧ (ofRange input a b).stop.offset = b :=
  ⟨Nat.min_eq_left ha, Nat.min_eq_left hb⟩

/-- The text between two places is empty if they are the same place. -/
theorem Input.slice_eq_empty_iff {input : Input} {a b : Nat} (ha : input.Inside a)
    (hb : input.Inside b) (hle : a ≤ b) : input.slice a b = "" ↔ a = b := by
  obtain ⟨cs, hcs⟩ := inside_iff.mp ha
  rw [slice, slice?, hb.2, hcs]
  simp only [hle, decide_true, Bool.and_self, if_true, Option.map_some, Option.getD_some]
  rw [String.ofList_eq_empty_iff]
  have hend : cs = [] → b ≤ a := fun hnil => hb.1.trans (by
    have := mt (lt_size_iff hcs).mp (not_not.mpr hnil)
    omega)
  cases cs with
  | nil => exact iff_of_true rfl (hle.antisymm (hend rfl))
  | cons c cs =>
    rw [Text.takeBytes]
    split <;> simp <;> omega

/-- The text that is told is empty if its place is. -/
theorem SyntaxError.TellsSpan.found_iff {input : Input} {e : SyntaxError} (h : e.TellsSpan input) :
    e.found.getD "" = "" ↔ e.location.start.offset = e.location.stop.offset := by
  obtain ⟨a, b, ha, hb, hle, hfound, hlocation⟩ := h
  obtain ⟨hstart, hstop⟩ := Location.offset_ofRange ha.1 hb.1
  rw [hfound, Option.getD_some, Input.slice_eq_empty_iff ha hb hle, hlocation, hstart, hstop]

/-- A span from the end of the input on is empty. -/
theorem SyntaxError.TellsSpan.stop_eq {input : Input} {e : SyntaxError} (h : e.TellsSpan input)
    (hend : e.location.start.offset = input.size) :
    e.location.start.offset = e.location.stop.offset := by
  obtain ⟨a, b, ha, hb, hle, -, hlocation⟩ := h
  obtain ⟨hstart, hstop⟩ := Location.offset_ofRange ha.1 hb.1
  rw [hlocation, hstart] at hend
  rw [hlocation, hstart, hstop]
  exact hle.antisymm (hend ▸ hb.1)

variable {σ α : Type} {E : Setting σ} {s t u : State σ} {index n : Nat}

/-! ## How actions end a parse -/

/-- The positions of a parse can be read on, and if an action ended it, the error tells the span of
the action. -/
structure EndsTold (input : Input) (o : Outcome α) (t : State σ) : Prop where
  reads : t.tracker.Reads input
  span : ∀ e, o = .error (.mismatch e) → e.TellsSpan input

theorem EndsTold.ok {input : Input} {v : α} (h : t.tracker.Reads input) :
    EndsTold input (.ok v) t := ⟨h, fun _ he => by cases he⟩

/-- It does not matter what would have been the value. -/
theorem EndsTold.error {input : Input} {β : Type} {e : ParseFailure}
    (h : EndsTold input (.error e : Outcome α) t) : EndsTold input (.error e : Outcome β) t :=
  ⟨h.reads, fun e' he => h.span e' (by cases he; rfl)⟩

/-- A step does not read on, or ends the parse as the action tells that it calls. -/
def Step.EndsTold (input : Input) : Step σ → Prop
  | .next _ t | .invoke _ _ t | .done _ t => t.tracker.Reads input
  | .abort e t => PegMachine.EndsTold input (.error e : Outcome Slot) t

namespace State

theorem tracker_countCurrent (f : RuleCounters → RuleCounters) :
    (s.countCurrent f).tracker = s.tracker := by
  unfold countCurrent
  split <;> rfl

theorem tracker_report (e : Expectation) : (s.report e).tracker = s.tracker := by
  unfold report
  dsimp only
  split
  · rfl
  · split <;> rfl

theorem tracker_fail (c : Nat) : (s.fail E c).2.tracker = s.tracker := by
  unfold fail failFor
  split
  · dsimp only
    split
    · exact tracker_countCurrent _
    · exact (tracker_report _).trans (tracker_countCurrent _)
  · exact tracker_countCurrent _

theorem tracker_restorePos (slot : Slot) : (s.restorePos slot).tracker = s.tracker := by
  unfold restorePos
  split <;> rfl

theorem tracker_loadSavedPos (slot : Slot) : (s.loadSavedPos slot).tracker = s.tracker := by
  unfold loadSavedPos
  split <;> rfl

section

variable (hreads : s.tracker.Reads E.input)
include hreads

/-- An action that ends a parse is told with its span. -/
theorem endsTold_call {args : List Value} {o : Outcome Slot} (hs : s.Inside E.input)
    (hle : s.savedPos ≤ s.pos)
    (hcall : s.call E index args = (o, t)) : EndsTold E.input o t := by
  have htold : ∀ {hs : σ} {message : String} {expected : List Expectation},
      EndsTold E.input (.error (.mismatch ⟨message, expected, some (s.actionContext E).text,
        (s.tracker.location s.savedPos s.pos).1⟩) : Outcome Slot)
      { s with handlerState := hs, tracker := (s.tracker.location s.savedPos s.pos).2 } := by
    intro hs' message expected
    obtain ⟨hlocation, hreads'⟩ := hreads.location s.savedPos s.pos
    refine ⟨hreads', ?_⟩
    rintro _ ⟨⟩
    exact ⟨_, _, hs.savedPos, hs.pos, hle, rfl, hlocation⟩
  rw [State.call] at hcall
  split at hcall
  · cases hcall
    exact ⟨hreads, fun _ he => by cases he⟩
  · rw [State.perform] at hcall
    dsimp only at hcall
    split at hcall
    · cases hcall
      exact .ok hreads
    · cases hcall
      exact .ok hreads
    · cases hcall
      exact htold
    · cases hcall
      exact htold
    · cases hcall
      exact ⟨hreads, fun _ he => by cases he⟩

theorem reads_trace (kind : TraceEvent.Kind) (rule start stop : Nat) (result : Option Slot) :
    (s.trace E kind rule start stop result).tracker.Reads E.input := by
  unfold trace
  split
  · exact (hreads.location _ _).2
  · exact hreads

theorem reads_entered : (s.entered E index).tracker.Reads E.input :=
  reads_trace (s := s.count index _) hreads ..

theorem reads_recalled (start nextPos : Nat) (result : Slot) :
    (s.recalled E index start nextPos result).tracker.Reads E.input := by
  have hcounted : (State.count { s with pos := nextPos } index
      (·.countRecall s.currentRule result.isFailed s.isSilent)).tracker.Reads E.input := hreads
  unfold recalled
  dsimp only
  split <;> exact reads_trace hcounted ..

theorem reads_returned (start : Nat) (result : Slot) :
    (s.returned E index start result).tracker.Reads E.input := by
  have hcounted : ((s.remember E index start result).count index
      (·.countReturn result.isFailed s.isSilent)).tracker.Reads E.input := by
    unfold remember
    split <;> exact hreads
  unfold returned
  dsimp only
  split <;> exact reads_trace hcounted ..

end

end State

/-- What a body comes to, its invocation comes to. -/
theorem EndsTold.left {entry : State σ} {o : Outcome Slot} (h : EndsTold E.input o t) :
    EndsTold E.input o (State.left E entry index o t) := by
  cases o with
  | error e => exact ⟨h.reads, h.span⟩
  | ok v =>
    have hback : State.tracker { t with currentRule := entry.currentRule } |>.Reads E.input :=
      h.reads
    exact .ok (State.reads_returned hback entry.pos v)

namespace Interpreter

/-- An instruction without blocks ends a parse as the action tells that it calls. -/
theorem endsTold_plain {opcode : Opcode} {arg : Nat → Nat} {stack : List Slot}
    {o : Outcome (List Slot)} (hcall : opcode = .call → s.Inside E.input ∧ s.savedPos ≤ s.pos)
    (hreads : s.tracker.Reads E.input) (hplain : plain E opcode arg stack s = (o, t)) :
    EndsTold E.input o t := by
  have hsame : ∀ {stack' : List Slot}, t.tracker = s.tracker → EndsTold E.input (.ok stack') t :=
    fun htracker => .ok (htracker ▸ hreads)
  cases opcode with
  | call =>
    obtain ⟨hs, hle⟩ := hcall rfl
    rw [plain_call] at hplain
    generalize hran : s.call E (arg 1) _ = r at hplain
    obtain ⟨o', t'⟩ := r
    have htold := State.endsTold_call hreads hs hle hran
    cases hplain
    cases o' with
    | error e =>
      exact htold.error
    | ok v => exact .ok htold.reads
  | fail =>
    cases hplain
    exact hsame (State.tracker_fail _)
  | pushFailed =>
    cases hplain
    exact hsame (State.tracker_countCurrent _)
  | popCurrPos =>
    cases hplain
    exact hsame (State.tracker_restorePos _)
  | loadSavedPos =>
    cases hplain
    exact hsame (State.tracker_loadSavedPos _)
  | _ =>
    cases hplain
    exact hsame rfl

/-- A step keeps the positions readable, and ends a parse as the action tells that it calls. -/
theorem endsTold_step {f : Frame}
    (hcall : f.deed? = some .call → s.Inside E.input ∧ s.savedPos ≤ s.pos)
    (hreads : s.tracker.Reads E.input) : (step E f s).EndsTold E.input := by
  rw [step]
  by_cases hlt : f.ip < f.stop
  · rw [if_pos hlt]
    cases hword : (f.code[f.ip]?).bind Opcode.ofWord? with
    | none => exact hreads
    | some opcode =>
      have hdeed : opcode = .call → f.deed? = some .call := by
        rintro rfl
        rw [Frame.deed?, if_pos hlt, hword]
        rfl
      dsimp only
      rw [stepOpcode]
      by_cases hcondition : opcode.isCondition = true
      · rw [if_pos hcondition]
        exact hreads
      rw [if_neg hcondition]
      by_cases hloop : opcode.isLoop = true
      · rw [if_pos hloop]
        exact hreads
      rw [if_neg hloop]
      by_cases hrule : opcode = .rule
      · rw [if_pos hrule]
        exact hreads
      rw [if_neg hrule]
      cases hplain : plain E opcode f.operand f.stack s with
      | mk o t =>
        have htold := endsTold_plain (hcall ∘ hdeed) hreads hplain
        cases o with
        | error e => exact htold.error
        | ok stack => exact htold.reads
  · rw [if_neg hlt]
    split <;> exact hreads

/-- Whenever an instruction is about to call an action, there is a span for it. -/
def CallsInside (E : Setting σ) (index : Nat) (s : State σ) : Prop :=
  ∀ f u, Occurs E index s f u → f.deed? = some .call → u.Inside E.input ∧ u.savedPos ≤ u.pos

/-- An invocation ends a parse as an action tells that is called in its course, if frames do. -/
theorem endsTold_rule {o : Outcome Slot}
    (hframe : ∀ {f u o t}, Occurs E index s f u → u.tracker.Reads E.input →
      runFrame E n f u = some (o, t) → EndsTold E.input o t)
    (hreads : s.tracker.Reads E.input) (hrun : runRule E n index s = some (o, t)) :
    EndsTold E.input o t := by
  have hentered : (s.entered E index).tracker.Reads E.input := State.reads_entered hreads
  rcases State.rule_eq_some.mp hrun with ⟨p, v, -, hr⟩ | ⟨hfresh, o', u, hbody, hr⟩
  · cases hr
    exact .ok (State.reads_recalled hentered ..)
  · cases hr
    rw [runBody] at hbody
    cases hrule : E.program.rules[index]? with
    | none =>
      rw [hrule] at hbody
      cases hbody
      exact EndsTold.left (.ok hentered)
    | some r =>
      rw [hrule] at hbody
      exact (hframe (.enter hfresh hrule) hentered hbody).left

/-- A frame ends a parse as an action tells that is called in its course. -/
theorem endsTold_runFrame {f : Frame} {o : Outcome Slot} (hcalls : CallsInside E index s)
    (hoccurs : Occurs E index s f t) (hreads : t.tracker.Reads E.input)
    (hrun : runFrame E n f t = some (o, u)) : EndsTold E.input o u := by
  induction n generalizing index s f t o u with
  | zero => cases hrun
  | succ n ih =>
    have hstep := endsTold_step (hcalls f t hoccurs) hreads
    rw [runFrame_succ] at hrun
    cases hnext : step E f t with
    | next g t' =>
      rw [hnext] at hrun hstep
      exact ih hcalls (hoccurs.next hnext) hstep hrun
    | done v t' =>
      rw [hnext] at hrun hstep
      cases hrun
      exact .ok hstep
    | abort e t' =>
      rw [hnext] at hrun hstep
      cases hrun
      exact hstep
    | invoke callee g t' =>
      rw [hnext] at hrun hstep
      dsimp only at hrun
      -- What occurs in the course of the callee does so in the course of this invocation too.
      have hinner : CallsInside E callee t' := fun f u hf => hcalls f u (hoccurs.inside hnext hf)
      cases hrule : runRule E n callee t' with
      | none =>
        rw [hrule] at hrun
        cases hrun
      | some out =>
        obtain ⟨o', w⟩ := out
        have hcallee := endsTold_rule (ih hinner) hstep hrule
        rw [hrule] at hrun
        cases o' with
        | error e =>
          cases hrun
          exact hcallee
        | ok v => exact ih hcalls (hoccurs.back hnext hrule) hcallee.reads hrun

theorem endsTold_runRule {o : Outcome Slot} (hcalls : CallsInside E index s)
    (hreads : s.tracker.Reads E.input) (hrun : runRule E n index s = some (o, t)) :
    EndsTold E.input o t :=
  endsTold_rule (endsTold_runFrame hcalls) hreads hrun

end Interpreter

/-! ## Reports of failed parses -/

/-- The report of the furthest failure shows no text just at the end of the input. -/
theorem State.found_failure {e : SyntaxError} (hs : s.Inside E.input)
    (hreads : s.tracker.Reads E.input) (hfailure : s.failure E = .mismatch e) :
    e.found.getD "" = "" ↔ e.location.start.offset = E.input.size := by
  obtain ⟨cs, hcs⟩ := Input.inside_iff.mp hs.furthest
  simp only [State.failure, (hreads.location _ _).1, ParseFailure.mismatch.injEq] at hfailure
  subst hfailure
  have hoffset (stop : Nat) :
      (Location.ofRange E.input s.furthest stop).start.offset = s.furthest :=
    Nat.min_eq_left hs.furthest.1
  have hend := Input.lt_size_iff hcs
  simp only [SyntaxError.ofExpected, hoffset, Input.rest_eq hcs]
  cases cs with
  | nil =>
    refine iff_of_true rfl ?_
    have := hs.furthest.1
    simp at hend
    omega
  | cons c cs =>
    refine iff_of_false (by simp) ?_
    simp at hend
    omega

/-- If a parse was not ended by an action, the error at its end shows no text just at the end of the
input. -/
theorem State.found_finish {e : SyntaxError} {v : Slot} (hs : s.Inside E.input)
    (hreads : s.tracker.Reads E.input) (hfinish : s.finish E v = .error (.mismatch e)) :
    e.found.getD "" = "" ↔ e.location.start.offset = E.input.size := by
  rw [State.finish] at hfinish
  split at hfinish
  · exact found_failure hs hreads (Except.error.inj hfinish)
  split at hfinish
  · cases hfinish
  split at hfinish
  · exact found_failure (hs.stays (s.stays_report _)) ((tracker_report _).symm ▸ hreads)
      (Except.error.inj hfinish)
  · exact found_failure hs hreads (Except.error.inj hfinish)

/-- Take the program of an accepted grammar and whatever handler, input and executor, and an error
that a parse ends with and whose message is the standard one. It reports that the end of the input
was found just if it is placed at the end of the input, or if an action ended the parse whose text
is empty, wherever that was. -/
theorem compile_reportsEnd_iff {g : Grammar} {options : Options} {listeners : Nat}
    {compiled : Compiled} {session : Session}
    (h : compile g options listeners = (.ok compiled, session)) {P : Program}
    (hP : session.program = some P) (hfit : P.Addressable) {p : Parser} (hp : p.program = P)
    (hsound : p.Sound) (handler : Handler σ) (hs : σ) (input : Input) (start n : Nat)
    {o : Outcome Slot} {t : State σ}
    (hrun : p.runRule (p.setting handler input) n start
      ((p.setting handler input).initial p.statistics hs) = some (o, t)) {e : SyntaxError}
    (herror : (p.reportOf (p.setting handler input) o t).outcome = .error (.mismatch e))
    (hstandard : e.message = SyntaxError.messageFor e.expected e.found) :
    e.ReportsEnd ↔ e.location.start.offset = input.size ∨
      ((∃ failure, o = .error failure) ∧ e.location.start.offset = e.location.stop.offset) := by
  obtain ⟨_, _, _, haccepted⟩ := compile_eq_ok h
  obtain ⟨c, trace, hg, hprogram⟩ := haccepted.program
  rw [hP, Option.some.injEq] at hprogram
  have hcarries : P.Carries c := hprogram ▸ Generated.program_carries hg trace
  let E := p.setting handler input
  let q := Parser.interpreted p.program
  have hq : q.Runs session.facts session.grammar c :=
    ⟨Parser.sound_interpreted _, hp ▸ hcarries, hp ▸ hfit⟩
  have hinside := hq.inside hg haccepted.resolved (E := E) rfl start
    (State.inside_initial E p.statistics hs) (State.KeepsResults.initial _ _)
  -- Whatever the executor, the interpreter ends alike, and its calls are known to be inside.
  obtain ⟨m, hm⟩ := (hsound.runRule_iff (E := E) rfl).mp ⟨n, hrun⟩
  have hcalls : Interpreter.CallsInside E start (E.initial p.statistics hs) := by
    intro f u hoccurs hdeed
    have hpasses : q.Passes E start (E.initial p.statistics hs) ⟨u, f.stack, f.deed?⟩ :=
      ⟨f, hoccurs, rfl, rfl⟩
    have hsoundMoment := hinside.1 _ hpasses
    exact ⟨hsoundMoment.state, (hsoundMoment.deed _ hdeed).1⟩
  have htold := Interpreter.endsTold_runRule hcalls (Tracker.reads_ofInput input) hm
  rw [SyntaxError.reportsEnd_iff hstandard]
  cases o with
  | ok v =>
    rw [State.found_finish (hinside.2 m _ _ hm) htold.reads herror]
    simp [E, Parser.setting]
  | error failure =>
    cases herror
    have hspan := htold.span e rfl
    rw [hspan.found_iff]
    exact ⟨fun hempty => .inr ⟨⟨_, rfl⟩, hempty⟩, fun h => h.elim hspan.stop_eq And.right⟩

/-- A grammar whose rule only asks an action whether it holds. -/
def checkedStart : GrammarSource where
  rules := [⟨"start", .of (.semanticAnd "f"), [], none⟩]

/-- The program of that grammar. -/
def checkedStartProgram : Program where
  rules := #[⟨"start", false, #[23, 32, 24, 0, 0, 0, 33, 9, 2, 2, 2, 26, 2, 28]⟩]
  constants := #[]
  actions := #[⟨[], "f"⟩]
  starters := [0]
  defaultStart := 0
  memoize := false
  trace := false
  statistics := false

/-- A handler that always expected something else. -/
def Handler.wanting (description : String) : Handler σ := fun _ _ _ _ s =>
  (.error (.expected description), s)

/-- If that action expects something in front of a character, the end of the input is reported as
found there. -/
theorem checkedStart_reportsEnd :
    let p := Parser.interpreted checkedStartProgram
    let E := p.setting (.wanting "more" : Handler Unit) (.ofString "a")
    ∃ o t e, p.runRule E 20 0 (E.initial p.statistics ()) = some (o, t) ∧
      (p.reportOf E o t).outcome = .error (.mismatch e) ∧ e.location.start.offset = 0 ∧
      E.input.size = 1 ∧ e.ReportsEnd := by
  intro p E
  have hok : (compile (.ofSource checkedStart) {} 0).1.isOk = true := by decide +kernel
  have hprogram : (compile (.ofSource checkedStart) {} 0).2.program =
      some checkedStartProgram := by
    decide +kernel
  have hfit : checkedStartProgram.Addressable := by constructor <;> decide
  obtain ⟨compiled, hcompiled⟩ := exists_compiled hok
  have hends : ((p.runRule E 20 0 (E.initial p.statistics ())).map fun r =>
      (r.1.isOk, (p.reportOf E r.1 r.2).outcome)) = some (false, .error (.mismatch
        ⟨"Expected more but end of input found.", [.other "more"], some "",
          ⟨⟨0, 1, 1⟩, ⟨0, 1, 1⟩⟩⟩)) := by
    cbv
  obtain ⟨⟨o, t⟩, hrun, hreport⟩ := Option.map_eq_some_iff.mp hends
  obtain ⟨hfailed, houtcome⟩ := Prod.mk.inj hreport
  cases o with
  | ok v => cases hfailed
  | error failure =>
    refine ⟨_, t, _, hrun, houtcome, rfl, by decide, ?_⟩
    exact (compile_reportsEnd_iff hcompiled hprogram hfit (p := p) rfl (Parser.sound_interpreted _)
      (.wanting "more" : Handler Unit) () (.ofString "a") 0 20 hrun houtcome (by decide)).mpr
        (.inr ⟨⟨_, rfl⟩, rfl⟩)

end PegMachine
