import PegMachine.Proofs.Compiled
import PegMachine.Proofs.Parses

/-!
# Running the code of a terminal

The code of an expression that invokes no rule can be run by itself, whatever the rest of the
program is. The words of a terminal accept a text where they are run and move past it, or they fail
where they began.
-/

namespace PegMachine

open Filter

variable {σ : Type} {E : Setting σ} {code : Code} {s t : State σ} {v : Slot}

namespace Code

/-- The words of some code, run by themselves, come to a result in some state. -/
def Gives (E : Setting σ) (code : Code) (s : State σ) (v : Slot) (t : State σ) : Prop :=
  ∀ᶠ n in atTop, Interpreter.runFrame E n (.start code.assemble.toArray) s = some (.ok v, t)

/-- The words of some code, run by themselves, accept a text and move past it, or fail and stay. -/
def Accepts (E : Setting σ) (code : Code) (s : State σ) : Option (List Char) → Prop
  | some text =>
    code.Gives E s (.text (String.ofList text)) { s with pos := s.pos + Text.byteSize text }
  | none => ∃ t, code.Gives E s .failed t ∧ t.pos = s.pos

/-- There is no more than one result. -/
theorem Gives.unique {w : Slot} {u : State σ} (h : code.Gives E s v t) (h' : code.Gives E s w u) :
    v = w ∧ t = u := by
  obtain ⟨n, hn, hn'⟩ := (h.and h').exists
  rw [hn] at hn'
  cases hn'
  exact ⟨rfl, rfl⟩

/-- There is no more than one text to accept. -/
theorem Accepts.unique {a b : Option (List Char)} (ha : code.Accepts E s a)
    (hb : code.Accepts E s b) : a = b := by
  cases a with
  | none =>
    cases b with
    | none => rfl
    | some text =>
      obtain ⟨t, ht, -⟩ := ha
      exact nomatch (ht.unique hb).1
  | some text =>
    cases b with
    | none =>
      obtain ⟨t, ht, -⟩ := hb
      exact nomatch (ht.unique ha).1
    | some text' =>
      have hsame := (Gives.unique ha hb).1
      simp only [Slot.text, Slot.value.injEq, Value.string.injEq, String.ofList_inj] at hsame
      rw [hsame]

end Code

/-- Code that means an evaluation gives its result. -/
theorem Means.gives {x : Env → Run (State σ) Slot}
    (h : Means E (fun _ => .forever) 0 code 0 [] x) (heffect : code.effect = 1)
    (hsize : code.size < 2 ^ 32) (hx : x [] s = some (.ok v, t)) : code.Gives E s v t := by
  -- What the code means is first what its instructions do, then what its words do.
  have hpushes := h.pushes heffect (by omega) [] [] rfl .nil
  have hexec : Instr.execAll E (fun _ => .forever) 0 code [] s = some (.ok [v], t) := by
    rw [hpushes.apply, hx]
  have hstand : Stand code.assemble.toArray 0 code.assemble := fun i _ => by simp
  have hplaced := code.placed_of_stand h.wellFormed hstand hsize
  obtain ⟨ip, hip, hreach⟩ := hplaced.follows_exec (fun _ _ _ h => by cases h) [] [] s _ _ hexec
  -- Behind its words the frame has nothing left to do.
  rw [Nat.zero_add] at hip hreach
  have hends : ∀ᶠ n in atTop, Interpreter.runFrame E n
      ⟨code.assemble.toArray, [v], ip, (Instr.assembleAll code).length, []⟩ t =
        some (.ok v, t) := by
    refine eventually_atTop.mpr ⟨1, fun n hn => ?_⟩
    obtain ⟨n, rfl⟩ := Nat.exists_eq_add_of_le' hn
    exact Interpreter.runFrame_done hip
  exact hreach.ends hends

namespace Generate

variable {p q : Pools} {whole : Code} {shape : Shape}

/-- The code of a terminal accepts what the terminal takes. -/
theorem accepts_taken (h : Means E (fun _ => .forever) 0 code 0 [] fun _ =>
      Peg.terminal (Peg.machine E) E.input shape)
    (heffect : code.effect = 1) (hsize : code.size < 2 ^ 32) (s : State σ) :
    code.Accepts E s (Peg.taken? E.input s.pos shape) := by
  cases htaken : Peg.taken? E.input s.pos shape with
  | some text =>
    refine h.gives heffect hsize ?_
    simp only [Peg.terminal, Peg.machine_pos, htaken]
    rfl
  | none =>
    refine ⟨s.failFor (Peg.wanted shape), h.gives heffect hsize ?_, (Peg.memo_failFor s _).2⟩
    simp only [Peg.terminal, Peg.machine_pos, htaken]
    rfl

/-- A terminal has a condition with two short blocks, so its code is short and leaves one slot. -/
theorem short_terminal {opcode acceptOp : Opcode} {operands : List UInt32} {w e : UInt32}
    (h : terminal opcode operands (Code.op1 acceptOp w) e p = .ok (whole, q))
    (haccept : StackEffect.plain acceptOp [w] = 1) (hoperands : operands.length ≤ 1) :
    whole.effect = 1 ∧ whole.size < 2 ^ 32 := by
  obtain ⟨-, rfl⟩ := terminal_eq_ok h
  refine ⟨by simpa using haccept, ?_⟩
  simp only [Code.size_cons, Code.size_nil, Code.length_assemble_branch, Code.length_assemble_op1]
  omega

/-- The code of a literal accepts what the literal takes. -/
theorem literal_accepts {value : String} {ignoreCase : Bool} (hE : E.program.Addressable)
    (h : literal value ignoreCase p = .ok (code, q)) (hq : E.program.Extends q) (s : State σ) :
    code.Accepts E s (Peg.taken? E.input s.pos (.literal value ignoreCase)) := by
  have hshort : code.effect = 1 ∧ code.size < 2 ^ 32 := by
    rw [literal] at h
    split at h
    · obtain ⟨c, p₁, -, hwhole⟩ := bind_eq_ok.mp h
      obtain ⟨rfl, -⟩ := pure_eq_ok.mp hwhole
      exact ⟨rfl, by simp⟩
    · split at h
      all_goals
        obtain ⟨c, p₁, -, hrest⟩ := bind_eq_ok.mp h
        obtain ⟨e, p₂, -, hwhole⟩ := bind_eq_ok.mp hrest
        exact short_terminal hwhole rfl le_rfl
  exact accepts_taken (literal_means hE h hq).2 hshort.1 hshort.2 s

/-- The code of a character class accepts what the class takes. -/
theorem charClass_accepts {parts : List ClassPart} {inverted ignoreCase : Bool} {raw : String}
    {location : Option Location} (hE : E.program.Addressable)
    (h : charClass parts inverted ignoreCase raw location p = .ok (code, q))
    (hq : E.program.Extends q) (s : State σ) :
    code.Accepts E s (Peg.taken? E.input s.pos (.charClass parts inverted ignoreCase raw)) := by
  have hshort : code.effect = 1 ∧ code.size < 2 ^ 32 := by
    obtain ⟨_, p₁, -, hrest⟩ := bind_eq_ok.mp h
    obtain ⟨e, p₂, -, hrest⟩ := bind_eq_ok.mp hrest
    split at hrest
    · split at hrest
      · exact short_terminal hrest rfl (Nat.zero_le 1)
      · obtain ⟨rfl, -⟩ := pure_eq_ok.mp hrest
        exact ⟨rfl, by simp⟩
    · obtain ⟨r, p₃, -, hwhole⟩ := bind_eq_ok.mp hrest
      exact short_terminal hwhole rfl le_rfl
  exact accepts_taken (charClass_means hE h hq).2 hshort.1 hshort.2 s

/-! ## Nodes -/

variable {g : Grammar} {f : Facts} {depth height : Nat} {id : NodeId} {scope scope' : Scope}
  {action? : Option String}

theorem node_literal {value : String} {ignoreCase : Bool}
    (hshape : g.shape id = .literal value ignoreCase)
    (h : node g f (depth + 1) id height scope action? p = .ok ((code, scope'), q)) :
    literal value ignoreCase p = .ok (code, q) := by
  rw [node, level] at h
  simp only [hshape] at h
  exact (inScope_eq_ok.mp h).1

theorem node_charClass {parts : List ClassPart} {inverted ignoreCase : Bool} {raw : String}
    (hshape : g.shape id = .charClass parts inverted ignoreCase raw)
    (h : node g f (depth + 1) id height scope action? p = .ok ((code, scope'), q)) :
    charClass parts inverted ignoreCase raw (g.node id).location p = .ok (code, q) := by
  rw [node, level] at h
  simp only [hshape] at h
  exact (inScope_eq_ok.mp h).1

/-- A node for which code was generated with the pools of a program. -/
theorem exists_generated {P : Program}
    (h : (node g f (depth + 1) id height scope action? p).toOption.any (fun r =>
      r.2.constants = P.constants ∧ r.2.actions = P.actions) = true) :
    ∃ r q, node g f (depth + 1) id height scope action? p = .ok (r, q) ∧ P.Extends q := by
  obtain ⟨⟨r, q⟩, hnode, hsame⟩ := (Option.any_eq_true _ _).mp h
  obtain ⟨hconstants, hactions⟩ := of_decide_eq_true hsame
  refine ⟨r, q, ?_, fun i _ => by rw [hconstants], fun i _ => by rw [hactions]⟩
  cases hrun : node g f (depth + 1) id height scope action? p with
  | error e =>
    rw [hrun] at hnode
    cases hnode
  | ok r' =>
    rw [hrun] at hnode
    exact congrArg Except.ok (Option.some.inj hnode)

end Generate

end PegMachine
