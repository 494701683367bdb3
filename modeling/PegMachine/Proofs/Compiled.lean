import PegMachine.Proofs.Layout
import PegMachine.Proofs.Meaning

/-!
# Generated programs

A program that carries the code that was generated for a grammar runs its rules as the recognizer
evaluates their expressions. Whether results are memoized, and what is traced and counted, does not
matter for that.
-/

namespace PegMachine

open Code

/-- A program has the code and the pools that were generated. -/
structure Program.Carries (P : Program) (c : Generated) : Prop where
  code : P.rules.toList.map (·.code) = c.code.map (·.assemble.toArray)
  constants : P.constants = c.pools.constants
  actions : P.actions = c.pools.actions

namespace Generate

variable {σ : Type} {E : Setting σ} {invoke : Nat → Run (State σ) Slot} {rounds : Nat}
  {p q : Pools} {g : Grammar} {f : Facts}

theorem rule_means (hE : E.program.Addressable) (hf : f.Resolves g)
    (hrules : g.rules.length ≤ 2 ^ 32) {r : Rule} {code : Code}
    (h : rule g f r p = .ok (code, q)) (hq : E.program.Extends q) :
    E.program.Extends p ∧ code.effect = 1 ∧ Means E invoke rounds code 0 [] fun env =>
      Peg.eval (Peg.machine E) E.input g invoke rounds g.depthBound r.expression env none := by
  obtain ⟨⟨c, scope⟩, p₁, hnode, hrest⟩ := bind_eq_ok.mp h
  dsimp only at hrest
  split at hrest
  · next heffect =>
    obtain ⟨rfl, rfl⟩ := pure_eq_ok.mp hrest
    obtain ⟨hp, hmeans, -⟩ := node_means hE hf hrules hnode hq
    exact ⟨hp, heffect, hmeans⟩
  · cases hrest

theorem rules_mean (hE : E.program.Addressable) (hf : f.Resolves g)
    (hrules : g.rules.length ≤ 2 ^ 32) {rs : List Rule} {codes : List Code}
    (h : rs.mapM (rule g f) p = .ok (codes, q)) (hq : E.program.Extends q) :
    E.program.Extends p ∧ List.Forall₂ (fun code r => code.effect = 1 ∧
      Means E invoke rounds code 0 [] fun env =>
        Peg.eval (Peg.machine E) E.input g invoke rounds g.depthBound r.expression env none)
      codes rs := by
  induction rs generalizing p codes with
  | nil =>
    obtain ⟨rfl, rfl⟩ := pure_eq_ok.mp h
    exact ⟨hq, .nil⟩
  | cons r rs ih =>
    rw [List.mapM_cons] at h
    obtain ⟨code, p₁, hfirst, hrest⟩ := bind_eq_ok.mp h
    obtain ⟨codes', p₂, hothers, hwhole⟩ := bind_eq_ok.mp hrest
    obtain ⟨rfl, rfl⟩ := pure_eq_ok.mp hwhole
    obtain ⟨hp₁, hothers⟩ := ih hothers
    obtain ⟨hp, hmeans⟩ := rule_means hE hf hrules hfirst hp₁
    exact ⟨hp, .cons hmeans hothers⟩

theorem length_of_rules {rs : List Rule} {codes : List Code}
    (h : rs.mapM (rule g f) p = .ok (codes, q)) : codes.length = rs.length := by
  induction rs generalizing p codes with
  | nil =>
    obtain ⟨rfl, rfl⟩ := pure_eq_ok.mp h
    rfl
  | cons r rs ih =>
    rw [List.mapM_cons] at h
    obtain ⟨code, p₁, hfirst, hrest⟩ := bind_eq_ok.mp h
    obtain ⟨codes', p₂, hothers, hwhole⟩ := bind_eq_ok.mp hrest
    obtain ⟨rfl, rfl⟩ := pure_eq_ok.mp hwhole
    rw [List.length_cons, ih hothers, List.length_cons]

end Generate

theorem Facts.generate_eq_ok {f : Facts} {g : Grammar} {c : Generated} (h : f.generate g = .ok c) :
    g.rules.mapM (Generate.rule g f) {} = .ok (c.code, c.pools) := by
  obtain ⟨⟨code, pools⟩, hrun, hc⟩ := bind_eq_ok.mp h
  cases hc
  exact hrun

/-- The program of a grammar carries what was generated for it. -/
theorem Generated.program_carries {f : Facts} {g : Grammar} {c : Generated}
    (h : f.generate g = .ok c) (trace : Bool) : (c.program g f trace).Carries c := by
  refine ⟨?_, rfl, rfl⟩
  have hlength := Generate.length_of_rules (Facts.generate_eq_ok h)
  refine List.ext_getElem (by simp [Generated.program, hlength]) fun i hi hi' => ?_
  simp [Generated.program]

/-- The rules of the program of a grammar have the names that they have in the grammar. -/
theorem Generated.exists_rule {f : Facts} {g : Grammar} {c : Generated} (h : f.generate g = .ok c)
    (trace : Bool) {index : Nat} {r : Rule} (hr : g.rules[index]? = some r) :
    ∃ r', (c.program g f trace).rules[index]? = some r' ∧ r'.name = r.name := by
  have hlength := Generate.length_of_rules (Facts.generate_eq_ok h)
  obtain ⟨hlt, rfl⟩ := List.getElem?_eq_some_iff.mp hr
  have hcode : index < c.code.length := hlength ▸ hlt
  refine ⟨⟨g.rules[index].name, (f.rules[index]?).any (·.memoize),
    c.code[index].assemble.toArray⟩, ?_, rfl⟩
  simp [Generated.program, hlt, hcode]

namespace Program.Carries

variable {σ : Type} {E : Setting σ} {g : Grammar} {f : Facts} {c : Generated}

theorem length_eq (hc : E.program.Carries c) : E.program.rules.size = c.code.length := by
  have := congrArg List.length hc.code
  simpa using this

theorem rules_mean (hc : E.program.Carries c) (hg : f.generate g = .ok c) (hf : f.Resolves g)
    (hE : E.program.Addressable) (invoke : Nat → Run (State σ) Slot) (rounds : Nat) :
    List.Forall₂ (fun code r => code.effect = 1 ∧ Means E invoke rounds code 0 [] fun env =>
        Peg.eval (Peg.machine E) E.input g invoke rounds g.depthBound r.expression env none)
      c.code g.rules := by
  have hgen := Facts.generate_eq_ok hg
  have hrules : g.rules.length ≤ 2 ^ 32 := by
    rw [← Generate.length_of_rules hgen, ← hc.length_eq]
    exact hE.rules
  exact (Generate.rules_mean hE hf hrules hgen
    ⟨fun i _ => by rw [hc.constants], fun i _ => by rw [hc.actions]⟩).2

/-- The code of a rule is short enough for its words. -/
theorem size_lt {P : Program} (hc : P.Carries c) (hP : P.Addressable) {code : Code}
    (h : code ∈ c.code) : code.size < 2 ^ 32 := by
  have hmem : code.assemble.toArray ∈ P.rules.toList.map (·.code) := by
    rw [hc.code]
    exact List.mem_map_of_mem h
  obtain ⟨r, hr, hcode⟩ := List.mem_map.mp hmem
  have := hP.code r (Array.mem_def.mpr hr)
  rw [hcode] at this
  exact this

/-- The words of the rules stand for the generated code. -/
theorem laidOut (hc : E.program.Carries c) (hg : f.generate g = .ok c) (hf : f.Resolves g)
    (hE : E.program.Addressable) : E.program.LaidOut c.code := by
  intro i
  have hi : (E.program.rules[i]?).map (·.code) = (c.code[i]?).map (·.assemble.toArray) := by
    have := congrArg (·[i]?) hc.code
    simpa using this
  cases hcode : c.code[i]? with
  | none =>
    rw [hcode] at hi
    rw [Option.map_eq_none_iff.mp hi]
    exact .none
  | some code =>
    rw [hcode, Option.map_some] at hi
    obtain ⟨r, hr, hwords⟩ := Option.map_eq_some_iff.mp hi
    rw [hr]
    refine .some ?_
    have hwf : code.WellFormed := by
      have hrel := getElem?_rel (hc.rules_mean hg hf hE (fun _ => .forever) 0) i
      rw [hcode] at hrel
      generalize g.rules[i]? = r at hrel
      cases hrel with
      | some hmeans => exact hmeans.2.wellFormed
    have hstand : Stand r.code 0 code.assemble := fun i hi => by simp [hwords]
    have hplaced := placed_of_stand code hwf hstand (hc.size_lt hE (List.mem_of_getElem? hcode))
    rw [Nat.zero_add] at hplaced
    rwa [show r.code.size = (Instr.assembleAll code).length by rw [hwords]; rfl]

/-- The code of a rule runs as its expression is evaluated. -/
theorem runBody_eq (hc : E.program.Carries c) (hg : f.generate g = .ok c) (hf : f.Resolves g)
    (hE : E.program.Addressable) (invoke : Nat → Run (State σ) Slot) (rounds index : Nat) :
    Code.runBody E c.code invoke rounds index =
      Peg.body (Peg.machine E) E.input g invoke rounds index := by
  have hrel := getElem?_rel (hc.rules_mean hg hf hE invoke rounds) index
  rw [Code.runBody, Peg.body]
  cases hcode : c.code[index]? with
  | none =>
    rw [hcode] at hrel
    cases hr : g.rules[index]? with
    | none => rfl
    | some r => rw [hr] at hrel; cases hrel
  | some code =>
    rw [hcode] at hrel
    cases hr : g.rules[index]? with
    | none => rw [hr] at hrel; cases hrel
    | some r =>
      rw [hr] at hrel
      cases hrel with
      | some hmeans =>
        obtain ⟨heffect, hmeans⟩ := hmeans
        have hsize := hc.size_lt hE (List.mem_of_getElem? hcode)
        have hpushes := hmeans.pushes heffect (by omega) [] [] rfl .nil
        dsimp only
        rw [hpushes, bind_map_left]
        exact bind_pure _

/-- Rules are invoked as they are evaluated. -/
theorem runRule_eq (hc : E.program.Carries c) (hg : f.generate g = .ok c) (hf : f.Resolves g)
    (hE : E.program.Addressable) (n index : Nat) :
    Code.runRule E c.code n index = Peg.machineRule E g n index := by
  induction n generalizing index with
  | zero => rfl
  | succ n ih =>
    rw [Code.runRule, Peg.machineRule, runBody_eq hc hg hf hE, funext ih]

/-- The machine code of a rule ends as the evaluation of its expression does. -/
theorem interpreter_iff (hc : E.program.Carries c) (hg : f.generate g = .ok c)
    (hf : f.Resolves g) (hE : E.program.Addressable) {index : Nat} {s : State σ}
    {r : Outcome Slot × State σ} :
    (∃ n, Interpreter.runBody E n index s = some r) ↔
      ∃ n, Peg.body (Peg.machine E) E.input g (Peg.machineRule E g n) n index s = some r := by
  rw [(hc.laidOut hg hf hE).runBody_iff]
  simp only [hc.runBody_eq hg hf hE, funext (hc.runRule_eq hg hf hE _)]

end Program.Carries

end PegMachine
