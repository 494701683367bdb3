import PegMachine.Proofs.Accepted
import PegMachine.Proofs.InsideRoutines
import PegMachine.Proofs.Transparency

/-!
# Parses stay inside the input

A parse passes through moments: a state, the entries of a stack or of slots, and what is about to be
done with the text. With the program of an accepted grammar each of them is sound, whether machine
code is interpreted or routines are run and whatever the actions answer: all offsets are places of
the input, every text that is taken is there, and what is accepted ends at a place of the input.
-/

namespace PegMachine

variable {σ : Type}

/-- A moment of a parse. -/
structure Moment (σ : Type) where
  /-- The state. -/
  state : State σ
  /-- What is on the stack or in the slots. -/
  entries : List Slot
  /-- What is about to be done with the text. -/
  deed? : Option Deed

/-- All offsets are places of the input, and what is about to be done with the text is safe. -/
structure Moment.Sound (E : Setting σ) (m : Moment σ) : Prop where
  state : m.state.Inside E.input
  entries : ∀ a, .pos a ∈ m.entries → E.input.Inside a
  deed : ∀ d, m.deed? = some d → d.Safe E m.state

/-- A parser passes through a moment in the course of the invocation of a rule in some state. -/
def Parser.Passes (p : Parser) (E : Setting σ) (index : Nat) (s : State σ) (m : Moment σ) : Prop :=
  match p.executor with
  | .interpreter => ∃ f : Frame, Interpreter.Occurs E index s f m.state ∧ m.entries = f.stack ∧
      m.deed? = f.deed?
  | .routines rs => ∃ stmts slots, Routine.Occurs E rs index s stmts slots m.state ∧
      m.entries = slots.toList ∧ m.deed? = stmts.head?.bind (·.deed? slots)

section

variable {E : Setting σ} {g : Grammar} {f : Facts} {c : Generated}

/-- The rules of a program that carries generated code have prepared code. -/
theorem Program.Carries.exists_prepared (hc : E.program.Carries c) (hg : f.generate g = .ok c)
    (hf : f.Resolves g) (hE : E.program.Addressable) (i : Nat) (r : Program.Rule)
    (hr : E.program.rules[i]? = some r) : ∃ c, Placed r.code c 0 r.code.size ∧ c.Prepared := by
  have hplaced := hc.laidOut hg hf hE i
  rw [hr] at hplaced
  cases hcode : c.code[i]? with
  | none =>
    rw [hcode] at hplaced
    cases hplaced
  | some code =>
    rw [hcode] at hplaced
    cases hplaced with
    | some hplaced =>
      exact ⟨code, hplaced, Facts.prepared_of_generate hg code (List.mem_of_getElem? hcode)⟩

/-- A parser for generated code passes through sound moments only, and ends inside. -/
theorem Parser.Runs.inside {p : Parser} (hp : p.Runs f g c) (hg : f.generate g = .ok c)
    (hf : f.Resolves g) (hE : E.program = p.program) (index : Nat) {s : State σ}
    (hs : s.Inside E.input) (hkeeps : s.KeepsResults) :
    (∀ m, p.Passes E index s m → m.Sound E) ∧
      ∀ n o t, p.runRule E n index s = some (o, t) → t.Inside E.input := by
  have hcarries : E.program.Carries c := hE ▸ hp.carries
  have hfits : E.program.Addressable := hE ▸ hp.fits
  have hcode := hcarries.start_typed hg hf hfits
  have hprepared := hcarries.exists_prepared hg hf hfits
  refine ⟨fun m hm => ?_, fun n o t hrun => ?_⟩
  · obtain ⟨t, entries, deed?⟩ := m
    cases hexecutor : p.executor with
    | interpreter =>
      rw [Passes, hexecutor] at hm
      obtain ⟨frame, hoccurs, rfl, rfl⟩ := hm
      obtain ⟨base, hsteady⟩ := hoccurs.steady hcode hprepared hs hkeeps
      exact ⟨hsteady.inside, fun a ha => hsteady.saved a (mem_positions.mpr ha),
        fun d hd => hsteady.safe (hoccurs.typed hcode hkeeps).1.proper hd⟩
    | routines rs =>
      have hroutines : E.program.routines = .ok rs := hE ▸ hp.sound rs hexecutor
      rw [Passes, hexecutor] at hm
      obtain ⟨stmts, slots, hoccurs, rfl, rfl⟩ := hm
      obtain ⟨base, hsteady⟩ := hoccurs.steady hroutines hcode hprepared hs hkeeps
      refine ⟨hsteady.inside, fun a ha => ?_, hsteady.step.2⟩
      obtain ⟨i, hi, hslot⟩ := List.getElem_of_mem ha
      refine hsteady.slots i a ?_
      rw [Array.length_toList] at hi
      rw [Routine.slot, Array.getD_eq_getD_getElem?, Array.getElem?_eq_getElem hi]
      exact hslot
  · obtain ⟨m, hm⟩ := (hp.sound.runRule_iff hE).mp ⟨n, hrun⟩
    exact (Interpreter.advanced_of_runRule hcode hprepared hs hkeeps hm).inside

end

/-- No parse with the program of an accepted grammar leaves its input or cuts a character, as long
as sizes fit into the words of the program: whatever the input, the actions and the executor, in
every moment of the parse the current offset, the register of actions, the offset of the furthest
failure and all saved offsets, those in the memo table included, are places of the input. An action
is run on a text that is there, and a text is taken from a saved offset that is not behind the
current one; what is accepted ends at a place of the input. The state at the end is inside, too. -/
theorem compile_staysInside {g : Grammar} {options : Options} {listeners : Nat}
    {compiled : Compiled} {s : Session} (h : compile g options listeners = (.ok compiled, s))
    {P : Program} (hP : s.program = some P) (hfit : P.Addressable) {p : Parser}
    (hp : p.program = P) (hsound : p.Sound) (handler : Handler σ) (hs : σ) (input : Input)
    (start : Nat) :
    let E := p.setting handler input
    let before := E.initial p.statistics hs
    (∀ m, p.Passes E start before m → m.Sound E) ∧
      ∀ n o t, p.runRule E n start before = some (o, t) → t.Inside input := by
  intro E before
  obtain ⟨_, _, _, haccepted⟩ := compile_eq_ok h
  obtain ⟨c, trace, hg, hprogram⟩ := haccepted.program
  rw [hP, Option.some.injEq] at hprogram
  have hcarries : P.Carries c := hprogram ▸ Generated.program_carries hg trace
  have hruns : p.Runs s.facts s.grammar c := ⟨hsound, hp ▸ hcarries, hp ▸ hfit⟩
  exact hruns.inside hg haccepted.resolved (E := E) rfl start (State.inside_initial E _ _)
    (State.KeepsResults.initial _ _)

/-- A grammar whose rule takes the text of a character before it runs an action. -/
def textOfCharacter : GrammarSource where
  rules := [⟨"start", .of (.action (.of (.sequence [
    .of (.labeled (some "t") (.of (.text (.of .any)))), .of (.literal "b" false)])) "t"), [], none⟩]

/-- The program of that grammar. -/
def textOfCharacterProgram : Program where
  rules := #[⟨"start", false, #[1, 1, 15, 2, 2, 19, 1, 21, 0, 11, 2, 1, 2, 8, 5, 11, 23, 3, 16, 1,
    2, 2, 20, 1, 21, 2, 11, 8, 4, 22, 2, 24, 0, 2, 1, 1, 5, 4, 2, 3, 28, 2, 3, 28]⟩]
  constants := #[.expected .any, .string "b", .expected (.literal "b")]
  actions := #[⟨["t"], "t"⟩]
  starters := [0]
  defaultStart := 0
  memoize := false
  trace := false
  statistics := false

/-- The text of a character of two bytes is taken with its second byte. -/
theorem textOfCharacter_staysInside :
    let p := Parser.interpreted textOfCharacterProgram
    let E := p.setting (.none : Handler Unit) (.ofString "éb")
    ∃ m, p.Passes E 0 (E.initial p.statistics ()) m ∧ m.deed? = some (.text (.pos 0)) ∧
      m.state.pos = 2 ∧ m.Sound E := by
  intro p E
  have hok : (compile (.ofSource textOfCharacter) {} 0).1.isOk = true := by decide +kernel
  have hprogram : (compile (.ofSource textOfCharacter) {} 0).2.program =
      some textOfCharacterProgram := by
    decide +kernel
  have hfit : textOfCharacterProgram.Addressable := by constructor <;> decide
  obtain ⟨compiled, hcompiled⟩ := exists_compiled hok
  have hinside := compile_staysInside hcompiled hprogram hfit (p := p) rfl
    (Parser.sound_interpreted _) (.none : Handler Unit) () (.ofString "éb") 0
  obtain ⟨f, t, hoccurs, hdeed, hpos⟩ : ∃ f t, Interpreter.Occurs E 0 (E.initial p.statistics ())
      f t ∧ f.deed? = some (.text (.pos 0)) ∧ t.pos = 2 :=
    ⟨_, _, .next (.next (.next (.next (.next (.next (.next (.enter rfl rfl) rfl) rfl) rfl) rfl)
      rfl) rfl) rfl, rfl, rfl⟩
  have hpasses : p.Passes E 0 (E.initial p.statistics ()) ⟨t, f.stack, f.deed?⟩ :=
    ⟨f, hoccurs, rfl, rfl⟩
  exact ⟨_, hpasses, hdeed, hpos, hinside.1 _ hpasses⟩

end PegMachine
