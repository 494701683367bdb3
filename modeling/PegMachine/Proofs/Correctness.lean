import Mathlib
import PegMachine.Proofs.Compiled
import PegMachine.Proofs.Language
import PegMachine.Proofs.Linking
import PegMachine.Proofs.Points

/-!
# Generated code is correct

Without memoization, the machine code of a rule gives what its expression evaluates to, and each of
them ends if the other does.
-/

namespace PegMachine

open Filter

namespace Peg

variable {σ : Type} {E : Setting σ} {g : Grammar}

/-- The point at which a state is. -/
def Point.of (s : State σ) : Point σ := ⟨s.pos, s.currentRule, s.reports, s.handlerState⟩

/-- How a state that a parse came to from another one agrees with the point that an evaluation came
to: on the reports, unless they are not heard, and the calls of actions, and on where a result was
found. A failure leaves the input where it was. -/
structure Agrees (s : State σ) (o : Outcome Slot) (s' : State σ) (t : Point σ) : Prop where
  reports : s'.reports = if s.silent = 0 then t.reports else s.reports
  handlerState : s'.handlerState = t.handlerState
  returned : ∀ v, o = .ok v → s'.pos = t.pos ∧ s'.silent = s.silent
  failed : o = .ok .failed → s'.pos = s.pos

/-- A state that accounts for every report and every call. -/
def exactly (E : Setting σ) : Account E where
  keeps H L h := H.reports = L ∧ H.handlerState = h
  report := by
    rintro H L h p e ⟨hL, hh⟩
    simp only [History.report]
    split
    · exact ⟨congrArg _ hL, hh⟩
    · split <;> exact ⟨congrArg _ hL, hh⟩
  answer := by
    rintro H L _ i a c args ⟨hL, rfl⟩
    exact ⟨rfl, hL, rfl⟩

/-- Nothing is recalled or kept if memoization is off. -/
theorem faithful_exactly (h : E.program.memoize = false) : (exactly E).Faithful g where
  recalls := by
    intro w s t index p result _ hhit
    rw [State.memoized?, Program.isMemoized, h] at hhit
    cases hhit
  remember := by
    intro w s t u index result _ hsu
    rw [State.remember, Program.isMemoized, h]
    exact hsu

theorem alike_of {s : State σ} (hs : s.tracker.Reads E.input) :
    (exactly E).Alike (s.silent, s.reports) s (.of s) := by
  refine ⟨rfl, rfl, rfl, hs, ?_, rfl⟩
  unfold heard
  split <;> rfl

theorem Agrees.of_after {s s' : State σ} {t : Point σ} {o : Outcome Slot} {m index : Nat}
    (hrun : body (points E) E.input g (pointRule E g m) m index (.of s) = some (o, t))
    (h : (exactly E).relation.after (s.silent, s.reports) o s' t) : Agrees s o s' t := by
  cases o with
  | error e => exact ⟨h.1, h.2, nofun, nofun⟩
  | ok v =>
    refine ⟨h.kept.1, h.kept.2, fun _ _ => ⟨h.pos, h.silent⟩, fun hv => ?_⟩
    cases hv
    rw [h.pos, pos_of_body_failed hrun]
    rfl

end Peg

open Peg

variable {σ : Type} {E : Setting σ} {g : Grammar} {f : Facts} {c : Generated}

/-- The machine code that is generated for a linked grammar is correct: without memoization, and as
long as sizes fit into its words, the code of a rule gives exactly what the expression of the rule
evaluates to, from any state of a parse on. The handler of actions may keep any state, for example
the list of all calls (`Handler.recording`), so actions are called alike, too. -/
theorem Facts.generate_correct (hg : f.generate g = .ok c) (hf : f.Resolves g) {trace : Bool}
    (hE : E.program = { c.program g f trace with memoize := false })
    (hfit : E.program.Addressable) (index : Nat) {s : State σ} (hs : s.tracker.Reads E.input) :
    (∀ o s', (∃ n, Interpreter.runBody E n index s = some (o, s')) →
      ∃ t, (∃ m, Peg.body (points E) E.input g (pointRule E g m) m index (.of s) = some (o, t)) ∧
        Agrees s o s' t) ∧
    ∀ o t, (∃ m, Peg.body (points E) E.input g (pointRule E g m) m index (.of s) = some (o, t)) →
      ∃ s', (∃ n, Interpreter.runBody E n index s = some (o, s')) ∧ Agrees s o s' t := by
  have hcarries : E.program.Carries c := by
    obtain ⟨hcode, hconstants, hactions⟩ := c.program_carries hg trace
    exact hE ▸ ⟨hcode, hconstants, hactions⟩
  have hinterpreter (o : Outcome Slot) (s' : State σ) :
      (∃ n, Interpreter.runBody E n index s = some (o, s')) ↔
        ∃ n, Peg.body (machine E) E.input g (machineRule E g n) n index s = some (o, s') :=
    hcarries.interpreter_iff hg hf hfit
  have hfaithful : (exactly E).Faithful g := faithful_exactly (by rw [hE])
  obtain ⟨hforth, hback⟩ := @Account.Faithful.body_iff _ _ _ _ hfaithful index _ _ _ (alike_of hs)
  constructor
  · rintro o s' hrun
    obtain ⟨n, hn⟩ := (hinterpreter o s').mp hrun
    obtain ⟨t, ht, hafter⟩ := hforth n o s' hn
    obtain ⟨m, hm⟩ := ht.exists
    exact ⟨t, ⟨m, hm⟩, .of_after hm hafter⟩
  · rintro o t ⟨m, hm⟩
    obtain ⟨s', hs', hafter⟩ := hback m o t hm
    exact ⟨s', (hinterpreter o s').mpr hs'.exists, .of_after hm hafter⟩

/-- A grammar with one rule, which runs code on any character. -/
def labeledCharacter : Grammar where
  rules := [{ name := "start", expression := 2 }]
  nodes := #[⟨.any, none⟩, ⟨.labeled (some "c") 0, none⟩, ⟨.action 1 "c", none⟩]

/-- The code of that rule. -/
def labeledCharacterCode : Generated where
  code := [[Code.op .pushCurrPos,
    .branch .matchAny [] [Code.op1 .acceptN 1] [Code.op1 .fail 0],
    .branch .ifNotError [] [Code.op1 .loadSavedPos 1, .plain .call [0, 1, 1, 0]] [],
    Code.op .nip]]
  pools := { constants := #[.expected .any], actions := #[⟨["c"], "c"⟩] }

/-- A parse with that rule, where actions give their arguments and calls are counted. -/
def labeledCharacterSetting : Setting Nat where
  program := { labeledCharacterCode.program labeledCharacter (.linked labeledCharacter) false
    with memoize := false }
  input := .ofString "x"
  handler _ _ _ args calls := (.ok (.array args), calls + 1)

theorem labeledCharacter_correct :
    ∃ t, (∃ m, Peg.body (points labeledCharacterSetting) (.ofString "x") labeledCharacter
        (pointRule labeledCharacterSetting labeledCharacter m) m 0 ⟨0, none, [], 0⟩ =
          some (.ok (.value (.array [.string "x"])), t)) ∧ t.handlerState = 1 := by
  have hg : (Facts.linked labeledCharacter).generate labeledCharacter =
    .ok labeledCharacterCode := by cbv
  have hrun : (Interpreter.runBody labeledCharacterSetting 12 0
      (labeledCharacterSetting.initial (.zero []) 0)).map (fun r => (r.1, r.2.handlerState)) =
        some (.ok (.value (.array [.string "x"])), 1) := by cbv
  obtain ⟨⟨o, s'⟩, hs', hsame⟩ := Option.map_eq_some_iff.mp hrun
  obtain ⟨rfl, hcalls⟩ := Prod.mk.inj hsame
  have hfit : labeledCharacterSetting.program.Addressable := by
    constructor <;> decide
  obtain ⟨t, ht, hagrees⟩ := (Facts.generate_correct hg (Facts.resolves_link _ _ _)
    (E := labeledCharacterSetting) rfl hfit 0 (Tracker.reads_ofInput _)).1 _ s' ⟨12, hs'⟩
  exact ⟨t, ht, hagrees.handlerState.symm.trans hcalls⟩

end PegMachine
