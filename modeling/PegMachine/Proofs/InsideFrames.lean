import PegMachine.Proofs.Inside

/-!
# Offsets in frames

Every frame that occurs in the course of a parse is steady if its code is typed and prepared: a step
keeps that, and a rule that is invoked gives its result not in front of where it began. So each
instruction that takes some of the input takes a text that is there.
-/

namespace PegMachine

variable {σ : Type} {E : Setting σ}

/-! ## Frames -/

/-- The code in front of a frame is prepared, so is that to which the blocks around it lead back,
and its moment is steady. -/
structure Frame.Steady (E : Setting σ) (base : Nat) (f : Frame) (s : State σ) : Prop where
  front : ∃ c k, Placed f.code c f.ip f.stop ∧ c.Prepared k ∧ PegMachine.Steady E base k f.stack s
  around : ∀ r ∈ f.resume, ∃ c, Placed f.code c r.2 r.1 ∧ c.Prepared

/-- What the instruction that is next in a frame is about to do with the text of the input. -/
def Frame.deed? (f : Frame) : Option Deed :=
  if f.ip < f.stop then
    (f.code[f.ip]?.bind Opcode.ofWord?).bind fun opcode => opcode.deed? f.operand f.stack
  else none

theorem Opcode.deed?_congr {opcode : Opcode} {a b : Nat → Nat} {stack : List Slot}
    (h : ∀ i < opcode.width a, a (i + 1) = b (i + 1)) :
    opcode.deed? a stack = opcode.deed? b stack := by
  cases opcode with
  | acceptN | acceptString | acceptRegexp =>
    have h1 : a 1 = b 1 := h 0 (by simp [Opcode.width])
    simp only [deed?, h1]
  | _ => rfl

theorem Opcode.deed?_of_isCondition {opcode : Opcode} {arg : Nat → Nat} {stack : List Slot}
    (h : opcode.isCondition = true) : opcode.deed? arg stack = none := by
  cases opcode <;> first | rfl | cases h

/-- What a step leads to is steady: a frame, also after an invocation that gives a result further
on. At the end the parse is not in front of where the rule began. -/
def Step.Steady (E : Setting σ) (base : Nat) : Step σ → Prop
  | .next f s => f.Steady E base s
  | .invoke _ f s => s.Inside E.input ∧ ∀ (v : Slot) t, v.Is .result → t.Inside E.input →
      s.pos ≤ t.pos → Frame.Steady E base { f with stack := v :: f.stack } t
  | .done _ s => s.Inside E.input ∧ base ≤ s.pos
  | .abort _ s => s.Inside E.input

namespace Frame.Steady

variable {base : Nat} {f : Frame} {s : State σ}

theorem inside (h : f.Steady E base s) : s.Inside E.input := by
  obtain ⟨_, _, -, -, hsteady⟩ := h.front
  exact hsteady.inside

theorem saved (h : f.Steady E base s) : ∀ a ∈ positions f.stack, E.input.Inside a := by
  obtain ⟨_, _, -, -, hsteady⟩ := h.front
  exact hsteady.saved

theorem start {r : Program.Rule} (hs : s.Inside E.input)
    (hr : ∃ c, Placed r.code c 0 r.code.size ∧ c.Prepared) :
    (Frame.start r.code).Steady E s.pos s := by
  obtain ⟨c, hplaced, hprepared⟩ := hr
  exact ⟨⟨c, .nothing, hplaced, hprepared, .start hs⟩, nofun⟩

/-- What the next instruction does with the text is safe. -/
theorem safe (h : f.Steady E base s) (hf : f.Proper E.program) {d : Deed}
    (hd : f.deed? = some d) : d.Safe E s := by
  obtain ⟨code, stack, ip, stop, resume⟩ := f
  obtain ⟨⟨c, k, hplaced, hprepared, hsteady⟩, -⟩ := h
  rw [deed?] at hd
  split at hd
  · next hlt =>
    obtain ⟨opcode, hword, hfinds, -⟩ := hf.finds hlt
    obtain ⟨opcode', hword', hd⟩ := Option.bind_eq_some_iff.mp hd
    obtain rfl : opcode = opcode' := Option.some.inj (hword.symm.trans hword')
    cases hplaced with
    | nil le => exact absurd hlt (Nat.not_lt.mpr le)
    | plain lt word _ _ width spells _ =>
      obtain rfl := Option.some.inj (hword.symm.trans word)
      have hargs := fun i hi => (spells i (width ▸ hi)).symm
      exact hsteady.safe hprepared.1 ((Opcode.finds_congr hargs).mp hfinds)
        ((Opcode.deed?_congr hargs).symm.trans hd)
    | branch lt word condition =>
      obtain rfl := Option.some.inj (hword.symm.trans word)
      rw [Opcode.deed?_of_isCondition condition] at hd
      cases hd
    | loop lt word =>
      obtain rfl := Option.some.inj (hword.symm.trans word)
      cases hd
  · cases hd

/-- A step of a frame that finds what it reads keeps it steady. -/
theorem step (h : f.Steady E base s) (hf : f.Proper E.program) :
    (Interpreter.step E f s).Steady E base := by
  obtain ⟨code, stack, ip, stop, resume⟩ := f
  obtain ⟨⟨c, k, hplaced, hprepared, hsteady⟩, haround⟩ := h
  dsimp only at hplaced haround hsteady
  cases hplaced with
  | nil le =>
    cases resume with
    | nil =>
      rw [Interpreter.step_done le]
      exact ⟨hsteady.inside, hsteady.base_le⟩
    | cons r resume =>
      obtain ⟨⟨c, hplaced, hprepared⟩, hresume⟩ := List.forall_mem_cons.mp haround
      rw [Interpreter.step_leave le]
      exact ⟨⟨c, .nothing, hplaced, hprepared, hsteady.forget⟩, hresume⟩
  | @plain _ _ opcode operands rest lt word not_condition not_loop width spells next =>
    obtain ⟨hasks, hrest⟩ := hprepared
    by_cases hrule : opcode = .rule
    · subst hrule
      rw [Interpreter.step_rule lt word width spells]
      exact ⟨hsteady.inside, fun v t hv ht hle =>
        ⟨⟨rest, .nothing, next, hrest, hsteady.result hv ht hle⟩, haround⟩⟩
    · obtain ⟨opcode', hword, hfinds, -⟩ := hf.finds lt
      obtain rfl : opcode = opcode' := Option.some.inj (word.symm.trans hword)
      have hargs := fun i hi => (spells i (width ▸ hi)).symm
      have hplain := fun o t =>
        hsteady.plain hasks ((Opcode.finds_congr hargs).mp hfinds) (o := o) (t := t)
      rw [Interpreter.step_plain lt word not_condition not_loop hrule width spells]
      generalize Interpreter.plain E opcode (Instr.arg operands) stack s = out at hplain
      obtain ⟨e | stack', t⟩ := out
      · exact (hplain _ _ rfl).1
      · exact ⟨⟨rest, _, next, hrest, (hplain _ _ rfl).2 _ rfl⟩, haround⟩
  | @branch _ _ t f opcode operands held otherwise rest lt word condition width spells t_eq f_eq
      placed_held placed_otherwise next =>
    obtain ⟨⟨hheld, hotherwise⟩, hrest⟩ := hprepared
    have hbehind : ∀ r ∈ (stop, ip + (operands.length + 3) + t + f) :: resume,
        ∃ c, Placed code c r.2 r.1 ∧ c.Prepared :=
      List.forall_mem_cons.mpr ⟨⟨rest, next, hrest⟩, haround⟩
    rw [Interpreter.step_branch lt word condition width spells t_eq f_eq]
    split
    · next hholds => exact ⟨⟨held, _, placed_held, hheld, hsteady.holds hholds⟩, hbehind⟩
    · exact ⟨⟨otherwise, _, placed_otherwise, hotherwise, hsteady.forget⟩, hbehind⟩
  | @loop _ _ b body rest lt word b_eq placed_body next =>
    obtain ⟨hbody, hrest⟩ := hprepared
    rw [Interpreter.step_loop lt word b_eq]
    split
    · refine ⟨⟨body, _, placed_body, hbody, hsteady.forget⟩, List.forall_mem_cons.mpr ⟨?_, haround⟩⟩
      exact ⟨.loop body :: rest, .loop lt word b_eq placed_body next, hbody, hrest⟩
    · exact ⟨⟨rest, _, next, hrest, hsteady.forget⟩, haround⟩

end Frame.Steady

/-! ## Runs -/

/-- An invocation goes on if its body does, wherever that begins. -/
theorem Advanced.rule {s t : State σ} {o : Outcome Slot} {index : Nat} {body : Run (State σ) Slot}
    (hbody : ∀ s o t, s.Inside E.input → s.KeepsResults → body s = some (o, t) →
      Advanced E.input s.pos o t)
    (hs : s.Inside E.input) (hkeeps : s.KeepsResults)
    (h : State.rule E index body s = some (o, t)) : Advanced E.input s.pos o t := by
  have hentered := s.stays_entered E index
  rcases State.rule_eq_some.mp h with ⟨p, v, hhit, hr⟩ | ⟨-, o', t', hrun, hr⟩
  · cases hr
    obtain ⟨hp, hle⟩ := (hs.stays hentered).memoized hhit
    obtain ⟨ht, hpos⟩ :
        ((s.entered E index).recalled E index s.pos p v).Inside E.input ∧ _ :=
      (hs.stays hentered).recalled hp
    rw [hentered.pos_eq] at hle
    exact .ok ht (hle.trans_eq hpos.symm)
  · cases hr
    have hstart : s.Stays { s.entered E index with currentRule := some index } :=
      hentered.trans ⟨rfl, rfl, rfl, .inl rfl⟩
    have hran := hbody _ _ _ (hs.stays hstart) (hkeeps.entered E index) hrun
    rw [hstart.pos_eq] at hran
    exact hran.left hs

namespace Interpreter

section

variable
  (hcode : ∀ (i : Nat) r, E.program.rules[i]? = some r → (Frame.start r.code).Typed E.program)
  (hprepared : ∀ (i : Nat) r, E.program.rules[i]? = some r →
    ∃ c, Placed r.code c 0 r.code.size ∧ c.Prepared)
include hcode hprepared

theorem advanced_of_runBody {n : Nat}
    (hframe : ∀ (f : Frame) base (s : State σ) o t, f.Typed E.program → s.KeepsResults →
      f.Steady E base s → runFrame E n f s = some (o, t) → Advanced E.input base o t)
    (index : Nat) (s : State σ) (o : Outcome Slot) (t : State σ) (hs : s.Inside E.input)
    (hkeeps : s.KeepsResults) (hrun : runBody E n index s = some (o, t)) :
    Advanced E.input s.pos o t := by
  rw [runBody] at hrun
  cases hr : E.program.rules[index]? with
  | some r =>
    rw [hr] at hrun
    exact hframe _ _ s o t (hcode index r hr) hkeeps (.start hs (hprepared index r hr)) hrun
  | none =>
    rw [hr] at hrun
    cases hrun
    exact .ok hs le_rfl

/-- The run of a steady frame does not end in front of where its rule began. -/
theorem advanced_of_runFrame (n : Nat) : ∀ (f : Frame) (base : Nat) (s : State σ)
    (o : Outcome Slot) (t : State σ), f.Typed E.program → s.KeepsResults → f.Steady E base s →
      runFrame E n f s = some (o, t) → Advanced E.input base o t := by
  induction n with
  | zero =>
    intro f base s o t _ _ _ hrun
    cases hrun
  | succ n ih =>
    intro f base s o t hf hs hsteady hrun
    have htyped : (step E f s).Typed E.program := hf.step hs
    have hstep : (step E f s).Steady E base := hsteady.step hf.proper
    rw [runFrame_succ] at hrun
    cases hnext : step E f s with
    | next g u =>
      rw [hnext] at hrun htyped hstep
      exact ih g base u o t htyped.1 htyped.2 hstep hrun
    | done v u =>
      rw [hnext] at hrun hstep
      cases hrun
      exact .ok hstep.1 hstep.2
    | abort e u =>
      rw [hnext] at hrun hstep
      cases hrun
      exact .error hstep
    | invoke callee g u =>
      rw [hnext] at hrun htyped hstep
      dsimp only at hrun
      have hcallee : ∀ o t, runRule E n callee u = some (o, t) → Advanced E.input u.pos o t :=
        fun _ _ => Advanced.rule (advanced_of_runBody hcode hprepared ih callee) hstep.1 htyped.2
      cases hreturn : runRule E n callee u with
      | none =>
        rw [hreturn] at hrun
        cases hrun
      | some out =>
        obtain ⟨e | v, w⟩ := out
        · rw [hreturn] at hrun
          cases hrun
          exact .error (hcallee _ _ hreturn).inside
        · rw [hreturn] at hrun
          have hv := settled_of_runRule hcode htyped.2 hreturn
          have hw := hcallee _ _ hreturn
          exact ih _ base w o t (htyped.1 v (hv.result v rfl)) hv.keeps
            (hstep.2 v w (hv.result v rfl) hw.inside (hw.le v rfl)) hrun

/-- An invocation does not end in front of where it began. -/
theorem advanced_of_runRule {n index : Nat} {s t : State σ} {o : Outcome Slot}
    (hs : s.Inside E.input) (hkeeps : s.KeepsResults) (hrun : runRule E n index s = some (o, t)) :
    Advanced E.input s.pos o t :=
  Advanced.rule (advanced_of_runBody hcode hprepared (advanced_of_runFrame hcode hprepared n) index)
    hs hkeeps hrun

/-- Every frame that occurs is steady. -/
theorem Occurs.steady {index : Nat} {s t : State σ} {f : Frame} (h : Occurs E index s f t)
    (hs : s.Inside E.input) (hkeeps : s.KeepsResults) : ∃ base, f.Steady E base t := by
  induction h with
  | @enter index s r _ rule =>
    have hentered := hs.stays (s.stays_entered E index)
    exact ⟨_, .start (hentered.stays ⟨rfl, rfl, rfl, .inl rfl⟩) (hprepared index r rule)⟩
  | next hoccurs hnext ih =>
    obtain ⟨base, hf⟩ := ih hs hkeeps
    have hstep := hf.step (hoccurs.typed hcode hkeeps).1.proper
    rw [hnext] at hstep
    exact ⟨base, hstep⟩
  | inside hoccurs hinvoke _ ih ih_inner =>
    obtain ⟨base, hf⟩ := ih hs hkeeps
    obtain ⟨htyped, ht⟩ := hoccurs.typed hcode hkeeps
    have hstep := hf.step htyped.proper
    have hkept := htyped.step ht (E := E)
    rw [hinvoke] at hstep hkept
    exact ih_inner hstep.1 hkept.2
  | @back index callee n s t u w f g v hoccurs hinvoke hreturns ih =>
    obtain ⟨base, hf⟩ := ih hs hkeeps
    obtain ⟨htyped, ht⟩ := hoccurs.typed hcode hkeeps
    have hstep := hf.step htyped.proper
    have hkept := htyped.step ht (E := E)
    rw [hinvoke] at hstep hkept
    have hv := settled_of_runRule hcode hkept.2 hreturns
    have hw := advanced_of_runRule hcode hprepared hstep.1 hkept.2 hreturns
    exact ⟨base, hstep.2 v w (hv.result v rfl) hw.inside (hw.le v rfl)⟩

end

end Interpreter

end PegMachine
