import PegMachine.Parser
import PegMachine.Proofs.Layout
import PegMachine.Proofs.Unrolling

/-!
# The executors agree

Code that can be unrolled is placed structured code, whatever it was made by; so the routines of a
program and its machine code end alike. The slots that a routine touches are those it has.
-/

namespace PegMachine

variable {σ : Type} {E : Setting σ}

namespace Instruction

/-- A whole instruction stands where its length is known. -/
theorem length?_eq_some {code : Array UInt32} {ip n : Nat} (h : length? code ip = some n) :
    ∃ opcode, (code[ip]?).bind Opcode.ofWord? = some opcode ∧
      n = 1 + opcode.width fun i => wordAt code (ip + i) := by
  rw [length?] at h
  cases hop : (code[ip]?).bind Opcode.ofWord? with
  | none => rw [hop] at h; cases h
  | some opcode =>
    refine ⟨opcode, rfl, ?_⟩
    rw [hop] at h
    dsimp only at h
    rw [Opcode.width]
    by_cases hcall : opcode = .call
    · simp only [parameterCount?, hcall, if_true] at h ⊢
      cases hword : code[ip + 3]? with
      | none => rw [hword] at h; cases h
      | some w =>
        have hw : wordAt code (ip + 3) = w.toNat := by
          simp [wordAt, Array.getD_eq_getD_getElem?, hword]
        simp only [hword, Option.map_some] at h
        split at h
        · rw [hw, ← Option.some.inj h, Nat.add_assoc]
        · cases h
    · simp only [parameterCount?, hcall, if_false] at h ⊢
      split at h
      · exact (Option.some.inj h).symm
      · cases h

/-- The words after the first one of an instruction. -/
def wordsAfter (code : Array UInt32) (ip n : Nat) : List UInt32 :=
  (List.range n).map fun i => code.getD (ip + (i + 1)) 0

@[simp] theorem length_wordsAfter (code : Array UInt32) (ip n : Nat) :
    (wordsAfter code ip n).length = n := by
  simp [wordsAfter]

theorem spells_wordsAfter (code : Array UInt32) (ip n : Nat) :
    Spells code ip (wordsAfter code ip n) := by
  intro i hi
  rw [length_wordsAfter] at hi
  simp [Instr.arg, wordsAfter, wordAt, List.getD_eq_getElem?_getD, hi]

end Instruction

namespace Routine

/-- The statements of an instruction depend on its words only. -/
theorem plain?_congr {opcode : Opcode} {a b : Nat → Nat}
    (h : ∀ i < opcode.width a, a (i + 1) = b (i + 1)) (height : Nat) :
    plain? opcode a height = plain? opcode b height := by
  cases opcode with
  | call =>
    have hwidth : Opcode.call.width a = 3 + a 3 := by simp [Opcode.width, Opcode.operands]
    rw [hwidth] at h
    have h1 : a 1 = b 1 := h 0 (by omega)
    have h2 : a 2 = b 2 := h 1 (by omega)
    have h3 : a 3 = b 3 := h 2 (by omega)
    have hargs : ((List.range (a 3)).map fun i => a (4 + i)) =
        (List.range (b 3)).map fun i => b (4 + i) := by
      rw [← h3]
      refine List.map_congr_left fun i hi => ?_
      have hlt : i < a 3 := List.mem_range.mp hi
      rw [show 4 + i = (3 + i) + 1 by omega, h (3 + i) (by omega)]
    simp only [plain?, h1, h2, hargs]
  | push | popN | wrap | acceptN | acceptString | fail | loadSavedPos | acceptRegexp | rule =>
    have h1 : a 1 = b 1 := h 0 (by simp [Opcode.width, Opcode.operands])
    simp only [plain?, h1]
  | _ => rfl

/-- The condition of an instruction depends on the words before the lengths of its blocks. -/
theorem cond?_congr {opcode : Opcode} {n : Nat} {a b : Nat → Nat}
    (hn : opcode.operands = n + 2) (h : ∀ i < n, a (i + 1) = b (i + 1)) (height : Nat) :
    cond? opcode a height = cond? opcode b height := by
  cases opcode with
  | ifArrlenMin | ifArrlenMax | matchString | matchStringIc | matchRegexp =>
    have h1 : a 1 = b 1 := h 0 (by simp only [Opcode.operands] at hn; omega)
    simp only [cond?, h1]
  | _ => rfl

theorem operands_of_isCondition {opcode : Opcode} (h : opcode.isCondition = true) :
    ∃ n, opcode.operands = n + 2 ∧ ∀ a, opcode.width a = n + 2 := by
  cases opcode <;> first | exact ⟨_, rfl, fun _ => rfl⟩ | cases h

theorem eq_whileNotError {opcode : Opcode} (h : opcode.isLoop = true) : opcode = .whileNotError := by
  cases opcode <;> first | rfl | cases h

/-- Code that can be unrolled stands for structured code, which unrolls to the same statements. -/
theorem unrollBlock_eq_ok {code : Array UInt32} {name : String} :
    ∀ {ip stop height peak : Nat} {u : Unrolled},
      unrollBlock code name ip stop height peak = .ok u →
      ∃ c, Placed code c ip stop ∧ peak ≤ u.peak ∧
        ∀ limit ≥ u.peak, Unrolls limit c height u.body u.height := by
  intro ip stop
  induction hn : stop - ip using Nat.strong_induction_on generalizing ip stop with
  | _ n ih =>
    intro height peak u h
    subst hn
    rw [unrollBlock] at h
    split at h
    · next hlt =>
      split at h
      · next opcode length hop hlength =>
        obtain ⟨opcode', hword, rfl⟩ := Instruction.length?_eq_some hlength
        obtain ⟨w, hw, hw'⟩ := Option.bind_eq_some_iff.mp hword
        obtain rfl : opcode = opcode' := by
          rw [Array.getD_eq_getD_getElem?, hw] at hop
          exact Option.some.inj (hop.symm.trans hw')
        have hpos := Instruction.length?_pos hlength
        dsimp only at h
        split at h
        · next hcondition =>
          -- A condition: its blocks and the code behind it are unrolled one after the other.
          obtain ⟨n, hoperands, hwidth⟩ := operands_of_isCondition hcondition
          rw [hwidth] at h
          rw [show ip + (1 + (n + 2) - 2) = ip + (n + 1) by omega,
            show ip + (1 + (n + 2) - 1) = ip + (n + 2) by omega,
            show ip + (1 + (n + 2)) = ip + (n + 3) by omega] at h
          split at h
          · cases h
          · next cond hcond =>
            split at h
            · next hend =>
              obtain ⟨held, hheld, h⟩ := bind_eq_ok.mp h
              obtain ⟨otherwise, hotherwise, h⟩ := bind_eq_ok.mp h
              split at h
              · cases h
              · next hheight =>
                obtain ⟨rest, hrest, h⟩ := bind_eq_ok.mp h
                cases h
                obtain ⟨c₁, hp₁, hle₁, hu₁⟩ := ih _ (by omega) rfl hheld
                obtain ⟨c₂, hp₂, hle₂, hu₂⟩ := ih _ (by omega) rfl hotherwise
                obtain ⟨c₃, hp₃, hle₃, hu₃⟩ := ih _ (by omega) rfl hrest
                have hspells := Instruction.spells_wordsAfter code ip n
                refine ⟨.branch opcode (Instruction.wordsAfter code ip n) c₁ c₂ :: c₃,
                  .branch (t := Instruction.wordAt code (ip + (n + 1)))
                    (f := Instruction.wordAt code (ip + (n + 2))) hlt hword hcondition
                    (by simpa using hoperands) hspells (by simp) (by simp) (by simpa using hp₁)
                    (by simpa using hp₂) (by simpa using hp₃),
                  by dsimp only; omega, fun limit hlimit => ?_⟩
                dsimp only at hlimit ⊢
                refine .branch hcondition ?_ (hu₁ limit (by omega))
                  (not_ne_iff.mp hheight ▸ hu₂ limit (by omega)) (hu₃ limit hlimit)
                rw [← hcond]
                exact cond?_congr hoperands
                  (fun i hi => hspells i (by simpa using hi)) height
            · cases h
        · next hcondition =>
          split at h
          · next hloop =>
            obtain rfl := eq_whileNotError hloop
            -- A loop, whose body leads back to the height in front of it.
            rw [show Opcode.whileNotError.width (fun i => Instruction.wordAt code (ip + i)) = 1
              from rfl] at h
            split at h
            · cases h
            · next cond hcond =>
              obtain ⟨top, htop, rfl⟩ := Option.map_eq_some_iff.mp hcond
              split at h
              · next hend =>
                obtain ⟨inner, hinner, h⟩ := bind_eq_ok.mp h
                split at h
                · cases h
                · next hheight =>
                  obtain ⟨rest, hrest, h⟩ := bind_eq_ok.mp h
                  cases h
                  obtain ⟨c₁, hp₁, hle₁, hu₁⟩ := ih _ (by omega) rfl hinner
                  obtain ⟨c₂, hp₂, hle₂, hu₂⟩ := ih _ (by omega) rfl hrest
                  refine ⟨.loop c₁ :: c₂, .loop hlt hword rfl hp₁ hp₂, by dsimp only; omega,
                    fun limit hlimit => ?_⟩
                  dsimp only at hlimit ⊢
                  have hblock := hu₁ limit (by omega)
                  rw [not_ne_iff.mp hheight] at hblock
                  exact .loop htop hblock (hu₂ limit hlimit)
              · cases h
          · next hloop =>
            split at h
            · cases h
            · next stmts after hplain =>
              obtain ⟨rest, hrest, h⟩ := bind_eq_ok.mp h
              cases h
              obtain ⟨c, hp, hle, hu⟩ := ih _ (by omega) rfl hrest
              have hspells := Instruction.spells_wordsAfter code ip
                (opcode.width fun i => Instruction.wordAt code (ip + i))
              refine ⟨.plain opcode _ :: c, .plain hlt hword (by simpa using hcondition)
                (by simpa using hloop) (by simp) hspells (by simpa [Nat.add_assoc] using hp),
                by dsimp only; omega, fun limit hlimit => ?_⟩
              dsimp only at hlimit ⊢
              refine .plain ?_ (by omega) (hu limit hlimit)
              rw [← hplain]
              exact (plain?_congr (fun i hi => (hspells i (by simpa using hi)).symm) height).symm
      · cases h
    · next hge =>
      cases h
      exact ⟨[], .nil (Nat.le_of_not_lt hge), le_rfl, fun _ _ => .nil⟩

/-- A routine that was unrolled from structured code. -/
structure UnrolledFrom (c : Code) (r : Routine) : Prop where
  /-- Its statements are those of the code and leave one entry. -/
  unrolls : Unrolls r.slots c 0 r.body 1
  /-- It has a slot for its result. -/
  slots_pos : 0 < r.slots

theorem unroll_eq_ok {index : Nat} {name : String} {code : Array UInt32} {r : Routine}
    (h : unroll index name code = .ok r) : ∃ c, Placed code c 0 code.size ∧ UnrolledFrom c r := by
  rw [unroll] at h
  obtain ⟨u, hu, h⟩ := bind_eq_ok.mp h
  split at h
  · cases h
  · next hheight =>
    cases h
    obtain ⟨c, hplaced, -, hunrolls⟩ := unrollBlock_eq_ok hu
    have hone := hunrolls (max u.peak 1) (le_max_left _ _)
    rw [not_ne_iff.mp hheight] at hone
    exact ⟨c, hplaced, hone, lt_of_lt_of_le Nat.one_pos (le_max_right _ _)⟩

/-- The routines of some rules are unrolled from the structured code that the rules' code stands
for. -/
theorem unrollFrom_eq_ok {index : Nat} {rules : List Program.Rule} {rs : List Routine}
    (h : unrollFrom index rules = .ok rs) :
    ∃ codes, List.Forall₂ (fun (r : Program.Rule) c => Placed r.code c 0 r.code.size) rules codes ∧
      List.Forall₂ UnrolledFrom codes rs := by
  induction rules generalizing index rs with
  | nil => cases h; exact ⟨[], .nil, .nil⟩
  | cons rule rest ih =>
    rw [unrollFrom] at h
    obtain ⟨first, hfirst, h⟩ := bind_eq_ok.mp h
    obtain ⟨others, hothers, h⟩ := bind_eq_ok.mp h
    cases h
    obtain ⟨c, hplaced, hunrolled⟩ := unroll_eq_ok hfirst
    obtain ⟨codes, hrules, hrs⟩ := ih hothers
    exact ⟨c :: codes, .cons hplaced hrules, .cons hunrolled hrs⟩

/-- A routine leaves in its first slot what the structured code leaves on the stack. -/
theorem runBody_eq {codes : List Code} {rs : Array Routine}
    (h : List.Forall₂ UnrolledFrom codes rs.toList) (invoke : Nat → Run (State σ) Slot)
    (rounds i : Nat) :
    runBody E rs invoke rounds i = Code.runBody E codes invoke rounds i := by
  have hrel : Option.Rel UnrolledFrom codes[i]? rs[i]? := by simpa using getElem?_rel h i
  rw [runBody, Code.runBody]
  generalize codes[i]? = c at hrel ⊢
  generalize rs[i]? = r at hrel ⊢
  cases hrel with
  | none => rfl
  | @some c r hunrolled =>
    funext s
    have hagrees : Agrees 1 (Array.replicate r.slots Slot.failed).size
        (Instr.execAll E invoke rounds c [] s)
        (execAll E invoke rounds r.body (Array.replicate r.slots .failed) s) :=
      hunrolled.unrolls.agrees s rfl (by simp) Mirrors.nil
    dsimp only
    rw [Run.bind_apply, Run.bind_apply]
    generalize Instr.execAll E invoke rounds c [] s = x at hagrees ⊢
    generalize execAll E invoke rounds r.body (Array.replicate r.slots .failed) s = y at hagrees ⊢
    cases hagrees with
    | forever => rfl
    | error => rfl
    | @ok stack slots t hlength hsize hmirrors =>
      have := hmirrors.top (by omega)
      rw [hlength] at this
      simp only [Run.pure_apply, ← this]

/-- Invocations of routines are invocations of the structured code. -/
theorem runRule_eq {codes : List Code} {rs : Array Routine}
    (h : List.Forall₂ UnrolledFrom codes rs.toList) (n i : Nat) :
    runRule E rs n i = Code.runRule E codes n i := by
  induction n generalizing i with
  | zero => rfl
  | succ n ih =>
    rw [runRule, Code.runRule, runBody_eq h, funext ih]

end Routine

open Routine

/-- A program whose code can be unrolled. -/
theorem Program.routines_eq_ok {p : Program} {rs : Array Routine} (h : p.routines = .ok rs) :
    ∃ codes, p.LaidOut codes ∧ List.Forall₂ UnrolledFrom codes rs.toList := by
  rw [Program.routines] at h
  cases hrs : unrollFrom 0 p.rules.toList with
  | error e => rw [hrs] at h; cases h
  | ok list =>
    rw [hrs] at h
    cases h
    obtain ⟨codes, hrules, hlist⟩ := unrollFrom_eq_ok hrs
    refine ⟨codes, fun i => ?_, by simpa using hlist⟩
    simpa using getElem?_rel hrules i

/-- Invocations end alike in machine code and in routines. -/
theorem Routine.runRule_iff {rs : Array Routine} (h : E.program.routines = .ok rs) {i : Nat}
    {s : State σ} {r : Outcome Slot × State σ} :
    (∃ n, Interpreter.runRule E n i s = some r) ↔ ∃ n, Routine.runRule E rs n i s = some r := by
  obtain ⟨codes, hlaid, hunrolled⟩ := Program.routines_eq_ok h
  rw [hlaid.runRule_iff]
  simp only [runRule_eq hunrolled]

/-- The slots that a routine touches are those it has, the slot of its result among them. -/
theorem Routine.unroll_indices_lt {index : Nat} {name : String} {code : Array UInt32} {r : Routine}
    (h : unroll index name code = .ok r) :
    0 < r.slots ∧ ∀ i ∈ Stmt.indicesAll r.body, i < r.slots := by
  obtain ⟨c, -, hunrolled⟩ := unroll_eq_ok h
  exact ⟨hunrolled.slots_pos, (hunrolled.unrolls.indices_lt (Nat.zero_le _)).2⟩

/-- The interpreter and the routines of a program give the same reports, whatever was counted
before, and either ends if the other does. The routine of any code that can be unrolled keeps to
its slots. -/
theorem Parser.unrolled_equivalent {p : Program} {q : Parser} (h : Parser.unrolled p = .ok q) :
    (∀ (before : Statistics) (handler : Handler σ) (hs : σ) (input : Input) (start : Nat)
        (report : ParseReport σ),
      (∃ fuel, ((Parser.interpreted p).withStatistics before).runFrom fuel handler hs input start =
          some report) ↔
        ∃ fuel, (q.withStatistics before).runFrom fuel handler hs input start = some report) ∧
      ∀ (index : Nat) (name : String) (code : Array UInt32) (r : Routine),
        unroll index name code = .ok r →
        0 < r.slots ∧ ∀ i ∈ Stmt.indicesAll r.body, i < r.slots := by
  rw [Parser.unrolled] at h
  obtain ⟨rs, hrs, h⟩ := bind_eq_ok.mp h
  cases h
  refine ⟨fun before handler hs input start report => ?_, fun _ _ _ _ => unroll_indices_lt⟩
  -- Both parsers have the same setting and the same state in the beginning.
  have hruns := fun (s : State σ) r =>
    Routine.runRule_iff (E := (Parser.interpreted p).setting handler input) hrs (i := start)
      (s := s) (r := r)
  simp only [Parser.runFrom, Option.map_eq_some_iff]
  constructor
  · rintro ⟨n, r, hr, hreport⟩
    obtain ⟨m, hm⟩ := (hruns _ r).mp ⟨n, hr⟩
    exact ⟨m, r, hm, hreport⟩
  · rintro ⟨n, r, hr, hreport⟩
    obtain ⟨m, hm⟩ := (hruns _ r).mpr ⟨n, hr⟩
    exact ⟨m, r, hm, hreport⟩

/-- A program of one rule, which takes any character. -/
def anyCharacter : Program where
  rules := #[⟨"any", true, #[15, 2, 2, 19, 1, 21, 0]⟩]
  constants := #[.expected .any]
  actions := #[]
  starters := [0]
  defaultStart := 0
  memoize := true
  trace := true
  statistics := true

theorem anyCharacter_unrolled_equivalent :
    ∃ q, Parser.unrolled anyCharacter = .ok q ∧ ∀ report : ParseReport Unit,
      (∃ fuel, (Parser.interpreted anyCharacter).runFrom fuel .none () (.ofString "x") 0 =
          some report) ↔
        ∃ fuel, q.runFrom fuel .none () (.ofString "x") 0 = some report := by
  have hroutines : anyCharacter.routines = .ok #[⟨0, "any", 1,
      [.branch .matchAny [.assign 0 (.acceptN 1)] [.assign 0 (.fail 0)]]⟩] := by cbv
  have h : Parser.unrolled anyCharacter = .ok _ := bind_eq_ok.mpr ⟨_, hroutines, rfl⟩
  exact ⟨_, h, (Parser.unrolled_equivalent h).1 (Parser.noStatistics anyCharacter) .none ()
    (.ofString "x") 0⟩

end PegMachine
