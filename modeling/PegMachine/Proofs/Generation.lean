import PegMachine.Proofs.Blocks

/-!
# What is generated

The code that is generated for a node pushes what the node evaluates to. Along the way constants
and actions are collected, so this is said of every program whose pools begin with what was
collected so far; and it is said of code that is balanced and that words of 32 bits can lay out.

A generator that goes through shows how it put its code together. From there the stack effect and
the size of the whole are passed down to the parts.
-/

namespace PegMachine

open Code

/-- Words of 32 bits can lay out a program: they can say how long its blocks are and where its
constants, its actions and its rules are found. -/
structure Program.Addressable (P : Program) : Prop where
  code : ∀ r ∈ P.rules, r.code.size < 2 ^ 32
  constants : P.constants.size ≤ 2 ^ 32
  actions : P.actions.size ≤ 2 ^ 32
  rules : P.rules.size ≤ 2 ^ 32

/-- The pools of a program begin with what was collected. -/
structure Program.Extends (P : Program) (p : Pools) : Prop where
  constants : ∀ i < p.constants.size, P.constants[i]? = p.constants[i]?
  actions : ∀ i < p.actions.size, P.actions[i]? = p.actions[i]?

namespace Generate

variable {α β : Type} {p q : Pools} {P : Program}

/-! ## Computations that go through -/

theorem bind_eq_ok {x : Generate α} {f : α → Generate β} {b : β} :
    (x >>= f) p = .ok (b, q) ↔ ∃ a p', x p = .ok (a, p') ∧ f a p' = .ok (b, q) := by
  change (x p >>= fun r => f r.1 r.2) = _ ↔ _
  rw [PegMachine.bind_eq_ok]
  exact ⟨fun ⟨r, hx, hf⟩ => ⟨r.1, r.2, hx, hf⟩, fun ⟨a, p', hx, hf⟩ => ⟨(a, p'), hx, hf⟩⟩

theorem pure_eq_ok {a b : α} : (pure a : Generate α) p = .ok (b, q) ↔ b = a ∧ q = p := by
  change Except.ok (a, p) = _ ↔ _
  simp [eq_comm]

theorem map_eq_ok {x : Generate α} {f : α → β} {b : β} :
    (f <$> x) p = .ok (b, q) ↔ ∃ a, x p = .ok (a, q) ∧ b = f a := by
  rw [← bind_pure_comp, bind_eq_ok]
  constructor
  · rintro ⟨a, p', hx, hf⟩
    obtain ⟨rfl, rfl⟩ := pure_eq_ok.mp hf
    exact ⟨a, hx, rfl⟩
  · rintro ⟨a, hx, rfl⟩
    exact ⟨a, q, hx, rfl⟩

theorem branch_eq_ok {opcode : Opcode} {operands : List UInt32} {held otherwise : Code}
    {i : Instr} : branch opcode operands held otherwise p = .ok (i, q) ↔
      held.effect = otherwise.effect ∧ i = .branch opcode operands held otherwise ∧ q = p := by
  rw [branch]
  cases h : Code.branch opcode operands held otherwise with
  | ok j =>
    obtain ⟨heffect, rfl⟩ := branch_eq_ok_iff.mp h
    simp [heffect, eq_comm]
  | error e =>
    have : held.effect ≠ otherwise.effect := fun heffect => by
      rw [branch_eq_ok_iff.mpr ⟨heffect, rfl⟩] at h
      cases h
    simp [this]

theorem loop_eq_ok {body : Code} {i : Instr} :
    loop body p = .ok (i, q) ↔ body.effect = 0 ∧ i = .loop body ∧ q = p := by
  rw [loop]
  cases h : Code.loop body with
  | ok j =>
    obtain ⟨heffect, rfl⟩ := loop_eq_ok_iff.mp h
    simp [heffect, eq_comm]
  | error e =>
    have : body.effect ≠ 0 := fun heffect => by
      rw [loop_eq_ok_iff.mpr ⟨heffect, rfl⟩] at h
      cases h
    simp [this]

/-! ## Pools -/

theorem entry_lt {γ : Type} [DecidableEq γ] (pool : Array γ) (c : γ) :
    (Pools.entry pool c).1 < (Pools.entry pool c).2.size := by
  have h := Pools.getElem?_entry pool c
  exact (Array.getElem?_eq_some_iff.mp h).choose

/-- What begins with a pool with an entry begins with the pool, and has the entry at its index. -/
theorem extends_entry {γ : Type} [DecidableEq γ] {pool whole : Array γ} {c : γ}
    (h : ∀ i < (Pools.entry pool c).2.size, whole[i]? = (Pools.entry pool c).2[i]?) :
    (∀ i < pool.size, whole[i]? = pool[i]?) ∧ whole[(Pools.entry pool c).1]? = some c := by
  refine ⟨fun i hi => ?_, ?_⟩
  · have hentry := Pools.getElem?_entry_of_lt c hi
    have hlt : i < (Pools.entry pool c).2.size := by
      rw [Array.getElem?_eq_getElem hi] at hentry
      exact (Array.getElem?_eq_some_iff.mp hentry).choose
    rw [h i hlt, hentry]
  · rw [h _ (entry_lt pool c), Pools.getElem?_entry]

/-- The index of an entry is the first one where it is found. -/
theorem findIdx?_of_extends_entry {γ : Type} [DecidableEq γ] {pool whole : Array γ} {c : γ}
    (h : ∀ i < (Pools.entry pool c).2.size, whole[i]? = (Pools.entry pool c).2[i]?) :
    whole.findIdx? (· = c) = some (Pools.entry pool c).1 := by
  obtain ⟨hpool, hc⟩ := extends_entry h
  obtain ⟨hlt, hc⟩ := Array.getElem?_eq_some_iff.mp hc
  refine Array.findIdx?_eq_some_iff_getElem.mpr ⟨hlt, by simpa using hc, fun j hj => ?_⟩
  have hj' : j < pool.size ∧ pool[j]? ≠ some c := by
    rw [Pools.entry] at hj
    split at hj
    · next index hindex =>
      obtain ⟨hindexlt, _, hbefore⟩ := Array.findIdx?_eq_some_iff_getElem.mp hindex
      have := hbefore j hj
      have hjlt : j < pool.size := Nat.lt_trans hj hindexlt
      exact ⟨hjlt, by simpa [hjlt] using this⟩
    · next hnone =>
      refine ⟨hj, fun hsome => ?_⟩
      have := Array.findIdx?_eq_none_iff.mp hnone c (Array.mem_of_getElem? hsome)
      simp at this
  have hne := hj'.2
  rw [← hpool j hj'.1] at hne
  have hjlt : j < whole.size := Nat.lt_trans hj hlt
  simpa [hjlt] using hne

theorem constant_eq_ok {c : Program.Constant} {w : UInt32} (hP : P.Addressable)
    (h : constant c p = .ok (w, q)) (hq : P.Extends q) :
    P.Extends p ∧ P.constants[w.toNat]? = some c := by
  obtain ⟨rfl, rfl⟩ : w = UInt32.ofNat (Pools.entry p.constants c).1 ∧
      q = { p with constants := (Pools.entry p.constants c).2 } := by
    cases h
    exact ⟨rfl, rfl⟩
  obtain ⟨hpool, hc⟩ := extends_entry hq.constants
  have hlt : (Pools.entry p.constants c).1 < P.constants.size :=
    (Array.getElem?_eq_some_iff.mp hc).choose
  have hw : (UInt32.ofNat (Pools.entry p.constants c).1).toNat = (Pools.entry p.constants c).1 :=
    UInt32.toNat_ofNat_of_lt' (Nat.lt_of_lt_of_le hlt hP.constants)
  exact ⟨⟨hpool, hq.actions⟩, by rw [hw, hc]⟩

theorem string_eq_ok {value : String} {w : UInt32} (hP : P.Addressable)
    (h : string value p = .ok (w, q)) (hq : P.Extends q) :
    P.Extends p ∧ P.string w.toNat = value := by
  obtain ⟨hp, hc⟩ := constant_eq_ok hP h hq
  exact ⟨hp, by rw [Program.string, hc]⟩

theorem expectation_eq_ok {e : Expectation} {w : UInt32} (hP : P.Addressable)
    (h : expectation e p = .ok (w, q)) (hq : P.Extends q) :
    P.Extends p ∧ P.expectation? w.toNat = some e := by
  obtain ⟨hp, hc⟩ := constant_eq_ok hP h hq
  exact ⟨hp, by rw [Program.expectation?, hc]⟩

theorem pattern_eq_ok {σ : Type} {E : Setting σ} {source : String} {ignoreCase multiLine : Bool}
    {w : UInt32} (hE : E.program.Addressable)
    (h : pattern source ignoreCase multiLine p = .ok (w, q)) (hq : E.program.Extends q) :
    E.program.Extends p ∧
      E.pattern? w.toNat = Regex.compile? (Regex.anchored source ignoreCase multiLine) := by
  obtain ⟨hp, hc⟩ := constant_eq_ok hE h hq
  refine ⟨hp, ?_⟩
  rw [Setting.pattern?, E.patterns_eq, Program.patterns, Array.getElem?_map, hc]
  rfl

theorem action_eq_ok {params : List String} {source : String} {w : UInt32} (hP : P.Addressable)
    (h : action params source p = .ok (w, q)) (hq : P.Extends q) :
    P.Extends p ∧ P.actions[w.toNat]? = some ⟨params, source⟩ ∧
      w.toNat = Peg.actionIndex P ⟨params, source⟩ := by
  obtain ⟨rfl, rfl⟩ : w = UInt32.ofNat (Pools.entry p.actions ⟨params, source⟩).1 ∧
      q = { p with actions := (Pools.entry p.actions ⟨params, source⟩).2 } := by
    cases h
    exact ⟨rfl, rfl⟩
  obtain ⟨hpool, hc⟩ := extends_entry hq.actions
  have hlt : (Pools.entry p.actions ⟨params, source⟩).1 < P.actions.size :=
    (Array.getElem?_eq_some_iff.mp hc).choose
  rw [UInt32.toNat_ofNat_of_lt' (Nat.lt_of_lt_of_le hlt hP.actions)]
  refine ⟨⟨hq.constants, hpool⟩, hc, ?_⟩
  rw [Peg.actionIndex, findIdx?_of_extends_entry hq.actions, Option.getD_some]

theorem call_eq_ok {f : UInt32} {replaced height : Nat} {scope : Scope} {i : Instr}
    (h : call f replaced scope height p = .ok (i, q)) :
    ∃ distances, scope.distances height = .ok distances ∧ q = p ∧
      i = .plain .call ([f, UInt32.ofNat replaced, UInt32.ofNat scope.length] ++ distances) := by
  rw [call] at h
  split at h
  · next distances hd =>
    cases h
    exact ⟨distances, hd, rfl, rfl⟩
  · cases h

theorem effect_call {f : UInt32} {replaced height : Nat} {scope : Scope} {run : Instr}
    (h : call f replaced scope height p = .ok (run, q)) :
    run.effect = 1 - (UInt32.ofNat replaced).toInt32 := by
  obtain ⟨distances, -, rfl, rfl⟩ := call_eq_ok h
  simp only [Instr.effect, StackEffect.plain]
  rfl

end Generate

end PegMachine
