import PegMachine.Proofs.Meaning
import PegMachine.Proofs.Trees

/-!
# Code can be generated

Generating code goes through where every reference has a target and no choice is without
alternatives. Each combination of expressions is generated if its parts make one entry each, and
makes one entry then. Labels always lie below the place where their values are needed.
-/

namespace PegMachine

open Code

/-- All labels lie below some height. -/
def Scope.Low (scope : Scope) (height : Nat) : Prop := ∀ l ∈ scope, l.2 < height

namespace Scope.Low

variable {scope : Scope} {height height' : Nat}

theorem nil (height : Nat) : Scope.Low [] height := nofun

theorem mono (h : scope.Low height) (hle : height ≤ height') : scope.Low height' :=
  fun l hl => (h l hl).trans_le hle

theorem bind (h : scope.Low height) (label : String) :
    (scope.bind label height).Low (height + 1) := by
  have hmono := h.mono (Nat.le_succ height)
  clear h
  induction scope with
  | nil =>
    intro l hl
    rw [List.mem_singleton.mp hl]
    exact Nat.lt_succ_self height
  | cons first scope ih =>
    obtain ⟨other, slot⟩ := first
    have hrest : Scope.Low scope (height + 1) := fun l hl => hmono l (List.mem_cons_of_mem _ hl)
    intro l hl
    rw [Scope.bind] at hl
    split at hl
    · rcases List.mem_cons.mp hl with rfl | hl
      · exact Nat.lt_succ_self height
      · exact hrest l hl
    · rcases List.mem_cons.mp hl with rfl | hl
      · exact hmono _ List.mem_cons_self
      · exact ih hrest l hl

theorem after (h : scope.Low height) (g : Grammar) (id : NodeId) :
    (scope.after g id height).Low (height + 1) := by
  unfold Scope.after
  split
  · exact h.bind _
  · exact h.mono (Nat.le_succ height)

/-- The distances of labels are known. -/
theorem exists_distances (h : scope.Low height) :
    ∃ distances, scope.distances height = .ok distances := by
  induction scope with
  | nil => exact ⟨[], rfl⟩
  | cons first scope ih =>
    obtain ⟨label, slot⟩ := first
    obtain ⟨others, hothers⟩ := ih fun l hl => h l (List.mem_cons_of_mem _ hl)
    have hlt : slot < height := h _ List.mem_cons_self
    rw [Scope.distances, if_pos hlt, hothers]
    exact ⟨_, rfl⟩

end Scope.Low

namespace Generate

variable {α β : Type} {m : Generate α} {Q : α → Prop} {R : β → Prop}

/-- A generator gives something with a property, whatever was collected before. -/
def Yields (m : Generate α) (Q : α → Prop) : Prop := ∀ p, ∃ a q, m p = .ok (a, q) ∧ Q a

theorem Yields.bind {k : α → Generate β} (h : Yields m Q) (hk : ∀ a, Q a → Yields (k a) R) :
    Yields (m >>= k) R := by
  intro p
  obtain ⟨a, p', hm, ha⟩ := h p
  obtain ⟨b, q, hb, hR⟩ := hk a ha p'
  exact ⟨b, q, bind_eq_ok.mpr ⟨a, p', hm, hb⟩, hR⟩

theorem Yields.imp {Q' : α → Prop} (h : Yields m Q) (hQ : ∀ a, Q a → Q' a) : Yields m Q' := by
  intro p
  obtain ⟨a, q, hm, ha⟩ := h p
  exact ⟨a, q, hm, hQ a ha⟩

theorem Yields.map {f : α → β} (h : Yields m Q) (hf : ∀ a, Q a → R (f a)) : Yields (f <$> m) R := by
  intro p
  obtain ⟨a, q, hm, ha⟩ := h p
  exact ⟨f a, q, map_eq_ok.mpr ⟨a, hm, rfl⟩, hf a ha⟩

theorem yields_pure {a : α} (h : Q a) : Yields (pure a) Q :=
  fun p => ⟨a, p, pure_eq_ok.mpr ⟨rfl, rfl⟩, h⟩

theorem yields_constant (c : Program.Constant) : Yields (constant c) fun _ => True :=
  fun _ => ⟨_, _, rfl, trivial⟩

theorem yields_action (params : List String) (source : String) :
    Yields (action params source) fun _ => True := fun _ => ⟨_, _, rfl, trivial⟩

theorem yields_defect (message : String) (location : Option Location) :
    Yields (defect message location) fun _ => True := fun _ => ⟨_, _, rfl, trivial⟩

/-- Both blocks of a condition have to move the stack equally far. -/
theorem yields_branch {opcode : Opcode} {operands : List UInt32} {held otherwise : Code}
    (h : held.effect = otherwise.effect) :
    Yields (branch opcode operands held otherwise) (·.effect = held.effect) :=
  fun p => ⟨_, p, branch_eq_ok.mpr ⟨h, rfl, rfl⟩, rfl⟩

/-- The body of a loop must not move the stack. -/
theorem yields_loop {body : Code} (h : body.effect = 0) : Yields (loop body) (·.effect = 0) :=
  fun p => ⟨_, p, loop_eq_ok.mpr ⟨h, rfl, rfl⟩, rfl⟩

theorem yields_afterFailure {recovery : Code} (h : recovery.effect = 0) :
    Yields (afterFailure recovery) (·.effect = 0) :=
  fun p => ⟨_, p, branch_eq_ok.mpr ⟨h, rfl, rfl⟩, h⟩

theorem yields_call {scope : Scope} {height : Nat} (f : UInt32) (replaced : Nat)
    (h : scope.Low height) :
    Yields (call f replaced scope height) (·.effect = 1 - (UInt32.ofNat replaced).toInt32) := by
  intro p
  obtain ⟨distances, hd⟩ := h.exists_distances
  have hcall : call f replaced scope height p = .ok (.plain .call
      ([f, UInt32.ofNat replaced, UInt32.ofNat scope.length] ++ distances), p) := by
    rw [call, hd]
  exact ⟨_, p, hcall, effect_call hcall⟩

/-- A failure takes the place of another one. -/
theorem effect_popFail (e : UInt32) : effect [op .pop, op1 .fail e] = 0 := by
  simp [StackEffect.plain]

/-! ## Terminals -/

variable {scope : Scope} {height : Nat}

theorem yields_terminal {opcode : Opcode} {operands : List UInt32} {accept : Instr} {e : UInt32}
    (h : accept.effect = 1) : Yields (terminal opcode operands accept e) (·.effect = 1) := by
  refine Yields.bind (yields_branch ?_) fun i hi => yields_pure ?_
  · simp [h, StackEffect.plain]
  · simp [hi, h]

theorem yields_literal (value : String) (ignoreCase : Bool) :
    Yields (literal value ignoreCase) (·.effect = 1) := by
  rw [literal]
  split
  · exact (yields_constant _).bind fun c _ => yields_pure rfl
  · split
    all_goals
      refine (yields_constant _).bind fun c _ => (yields_constant _).bind fun e _ => ?_
      exact yields_terminal rfl

theorem yields_charClass (parts : List ClassPart) (inverted ignoreCase : Bool) (raw : String)
    (location : Option Location) :
    Yields (charClass parts inverted ignoreCase raw location) (·.effect = 1) := by
  have hdefects (messages : List String) :
      Yields (messages.forM fun message => defect message location) fun _ => True := by
    induction messages with
    | nil => exact yields_pure trivial
    | cons message rest ih => exact (yields_defect _ _).bind fun _ _ => ih
  refine (hdefects _).bind fun _ _ => (yields_constant _).bind fun e _ => ?_
  split
  · split
    · exact yields_terminal rfl
    · exact yields_pure rfl
  · exact (yields_constant _).bind fun r _ => yields_terminal rfl

theorem yields_regex (value : String) (ignoreCase multiLine : Bool) (raw : String)
    (location : Option Location) :
    Yields (regex value ignoreCase multiLine raw location) (·.effect = 1) := by
  have hrest : Yields (do
      let r ← pattern value ignoreCase multiLine
      let e ← expectation (.regex raw)
      terminal .matchRegexp [r] (op1 .acceptRegexp r) e) (·.effect = 1) :=
    (yields_constant _).bind fun r _ => (yields_constant _).bind fun e _ => yields_terminal rfl
  rw [regex]
  split
  · exact (yields_defect _ _).bind fun _ _ => hrest
  · exact hrest

theorem yields_codeTerminal (source : String) (h : scope.Low height) :
    Yields (codeTerminal source scope height) (·.effect = 1) := by
  refine (yields_action _ _).bind fun f _ => (yields_constant _).bind fun e _ => ?_
  refine (yields_call f 0 h).bind fun run hrun => ?_
  refine Yields.bind (yields_afterFailure (effect_popFail e)) fun test htest => yields_pure ?_
  simp [hrun, htest, StackEffect.plain]

theorem yields_semanticPredicate (source : String) (negative : Bool) (h : scope.Low height) :
    Yields (semanticPredicate source negative scope height) (·.effect = 1) := by
  refine (yields_action _ _).bind fun f _ => (yields_call f 0 h).bind fun run hrun => ?_
  cases negative
  all_goals
    refine Yields.bind (yields_branch rfl) fun test htest => yields_pure ?_
    simp [hrun, htest, StackEffect.plain]

/-! ## Combinations -/

variable {c first further : Code}

theorem yields_simplePredicate (h : c.effect = 1) (negative : Bool) :
    Yields (simplePredicate c negative) (·.effect = 1) := by
  cases negative
  all_goals
    refine Yields.bind (yields_branch rfl) fun test htest => yields_pure ?_
    simp [h, htest, StackEffect.plain]

theorem yields_named (h : c.effect = 1) (e : UInt32) : Yields (named e c) (·.effect = 1) := by
  refine Yields.bind (yields_afterFailure (effect_popFail e)) fun test htest => yields_pure ?_
  simp [h, htest, StackEffect.plain]

/-- A choice between alternatives makes one entry if there are any. -/
theorem yields_choice {codes : List Code} (hsome : codes ≠ []) (h : ∀ c ∈ codes, c.effect = 1) :
    Yields (choice codes) (·.effect = 1) := by
  induction codes with
  | nil => exact absurd rfl hsome
  | cons first rest ih =>
    have hfirst := h first List.mem_cons_self
    cases rest with
    | nil => exact yields_pure hfirst
    | cons second rest =>
      refine (ih nofun fun c hc => h c (List.mem_cons_of_mem _ hc)).bind fun others hothers => ?_
      have hrecovery : effect (op .pop :: others) = 0 := by
        simp [hothers, StackEffect.plain]
      refine Yields.bind (yields_afterFailure hrecovery) fun test htest => yields_pure ?_
      simp [hfirst, htest]

theorem yields_text (h : c.effect = 1) : Yields (text c) (·.effect = 1) := by
  refine Yields.bind (yields_branch rfl) fun test htest => yields_pure ?_
  simp [h, htest, StackEffect.plain]

theorem yields_optional (h : c.effect = 1) : Yields (optional c) (·.effect = 1) := by
  refine Yields.bind (yields_afterFailure rfl) fun test htest => yields_pure ?_
  simp [h, htest]

theorem yields_appendLoop (h : c.effect = 1) : Yields (appendLoop c) (·.effect = 0) :=
  yields_loop (by simp [h, StackEffect.plain])

theorem yields_zeroOrMore (h : c.effect = 1) : Yields (zeroOrMore c) (·.effect = 1) := by
  refine Yields.bind (yields_appendLoop h) fun loop hloop => yields_pure ?_
  simp [h, hloop, StackEffect.plain]

theorem yields_oneOrMore (h : c.effect = 1) : Yields (oneOrMore c) (·.effect = 1) := by
  refine Yields.bind (yields_appendLoop h) fun loop hloop => ?_
  refine Yields.bind (yields_branch ?_) fun test htest => yields_pure ?_
  · simp [hloop, StackEffect.plain]
  · simp [h, htest, hloop, StackEffect.plain]

theorem yields_delimited (hfirst : first.effect = 1) (h : c.effect = 1) :
    Yields (delimited first c) (·.effect = 1) := by
  refine Yields.bind (yields_branch rfl) fun inner hinner => ?_
  refine Yields.bind (yields_branch ?_) fun outer houter => yields_pure ?_
  · simp [h, hinner, restoreAndFail, StackEffect.plain]
  · simp [h, hfirst, hinner, houter, restoreAndFail, StackEffect.plain]

theorem yields_range (min : UInt32) (max : Option UInt32) (hfirst : first.effect = 1)
    (hfurther : further.effect = 1) : Yields (range min max first further) (·.effect = 1) := by
  have hrest (bounded : Code) (hbounded : bounded.effect = 1) : Yields (do
      let loop ← appendLoop bounded
      let main := [op .pushEmptyArray] ++ first ++ [loop, op .pop]
      if min = 0 then return main
      let test ← branch .ifArrlenMin [min] restoreAndFail [op .nip]
      return [op .pushCurrPos] ++ main ++ [test]) fun c : Code => c.effect = 1 := by
    refine Yields.bind (yields_appendLoop hbounded) fun loop hloop => ?_
    dsimp only
    split
    · refine yields_pure ?_
      simp [hfirst, hloop, StackEffect.plain]
    · refine Yields.bind (yields_branch rfl) fun test htest => yields_pure ?_
      simp [hfirst, hloop, htest, restoreAndFail, StackEffect.plain]
  unfold range
  cases max with
  | none => exact Yields.bind (yields_pure hfurther) hrest
  | some max =>
    refine Yields.bind (yields_branch ?_) fun test htest => ?_
    · simp [hfurther, StackEffect.plain]
    · refine Yields.bind (yields_pure (Q := fun c => effect c = 1) ?_) hrest
      simp [htest, StackEffect.plain]

theorem yields_actionAround (hc : c.effect = 1) (source : String) (h : scope.Low (height + 2)) :
    Yields (actionAround c source scope height) (·.effect = 1) := by
  refine (yields_action _ _).bind fun f _ => (yields_call f 1 h).bind fun run hrun => ?_
  refine Yields.bind (yields_branch ?_) fun test htest => yields_pure ?_
  · simp [hrun, StackEffect.plain]
  · simp [hc, hrun, htest, StackEffect.plain]

/-! ## Sequences -/

/-- The end of a sequence replaces the values of its elements and the entry below them by one. -/
theorem yields_sequenceEnd (n : Nat) (action? : Option String) (h : scope.Low height) :
    Yields (sequenceEnd n action? scope height) (·.effect = -(UInt32.ofNat n).toInt32) := by
  cases action? with
  | some source =>
    refine (yields_action _ _).bind fun f _ => (yields_call f n h).bind fun run hrun => ?_
    refine yields_pure ?_
    simp only [effect_cons, effect_op1, effect_op, effect_nil, hrun, StackEffect.plain]
    grind
  | none =>
    refine yields_pure ?_
    simp only [effect_cons, effect_op1, effect_op, effect_nil, StackEffect.plain]
    grind

/-- What is inside of a sequence takes away what stands before it. -/
theorem yields_nest {tail : Code} {codes : List Code} {place : Nat}
    (hcodes : ∀ c ∈ codes, c.effect = 1)
    (htail : tail.effect = -(UInt32.ofNat (place + codes.length)).toInt32) :
    Yields (nest tail place codes) (·.effect = -(UInt32.ofNat place).toInt32) := by
  induction codes generalizing place with
  | nil => exact yields_pure htail
  | cons c codes ih =>
    have hc := hcodes c List.mem_cons_self
    have hrest := ih (fun c hc => hcodes c (List.mem_cons_of_mem _ hc)) (by
      rw [htail, List.length_cons, Nat.add_assoc place 1, Nat.add_comm 1])
    refine Yields.bind hrest fun inner hinner => ?_
    refine Yields.bind (yields_branch ?_) fun test htest => yields_pure ?_
    · rw [hinner, effect_cleanup]
    · have hsucc : (UInt32.ofNat (place + 1)).toInt32 = (UInt32.ofNat place).toInt32 + 1 := by
        rw [UInt32.ofNat_add, UInt32.toInt32_add]
        rfl
      rw [effect_append, effect_cons, effect_nil, hc, htest, hinner, hsucc]
      grind

/-- The elements of a sequence are generated one entry higher each, in the scope of those before. -/
theorem yields_elements {node : NodeId → Nat → Scope → Generate (Code × Scope)} {es : List NodeId}
    (hnode : ∀ e ∈ es, ∀ height scope, scope.Low height →
      Yields (node e height scope) fun out => out.1.effect = 1 ∧ out.2.Low (height + 1))
    (h : scope.Low height) : Yields (elements node es height scope) fun out =>
      out.1.length = es.length ∧ (∀ c ∈ out.1, c.effect = 1) ∧ out.2.Low (height + es.length) := by
  induction es generalizing height scope with
  | nil => exact yields_pure ⟨rfl, nofun, h⟩
  | cons e es ih =>
    refine (hnode e List.mem_cons_self height scope h).bind fun first hfirst => ?_
    have hrest := ih (fun e he => hnode e (List.mem_cons_of_mem _ he)) hfirst.2
    refine Yields.bind hrest fun rest hrest => yields_pure ⟨?_, ?_, ?_⟩
    · rw [List.length_cons, List.length_cons, hrest.1]
    · intro c hc
      rcases List.mem_cons.mp hc with rfl | hc
      · exact hfirst.1
      · exact hrest.2.1 c hc
    · rw [List.length_cons, ← Nat.add_assoc, Nat.add_right_comm]
      exact hrest.2.2

theorem yields_alternatives {child : NodeId → Generate Code} {es : List NodeId}
    (hchild : ∀ e ∈ es, Yields (child e) (·.effect = 1)) :
    Yields (es.mapM child) fun codes => codes.length = es.length ∧ ∀ c ∈ codes, c.effect = 1 := by
  induction es with
  | nil => exact yields_pure ⟨rfl, nofun⟩
  | cons e es ih =>
    rw [List.mapM_cons]
    refine (hchild e List.mem_cons_self).bind fun first hfirst => ?_
    refine (ih fun e he => hchild e (List.mem_cons_of_mem _ he)).bind fun rest hrest => ?_
    refine yields_pure ⟨?_, fun c hc => ?_⟩
    · rw [List.length_cons, List.length_cons, hrest.1]
    · rcases List.mem_cons.mp hc with rfl | hc
      · exact hfirst
      · exact hrest.2 c hc

/-! ## Nodes -/

/-- What a node must not be for code to be generated: a reference without a target, or a choice
without alternatives. -/
structure Viable (f : Facts) (g : Grammar) (x : NodeId) : Prop where
  resolved : ∀ name, g.shape x = .ruleRef name → (f.target? x).isSome
  nonempty : g.shape x ≠ .choice []

/-- Code for a node is generated if it can be for all nodes below it. -/
theorem yields_node {f : Facts} {g : Grammar} {depth : Nat} {id : NodeId} (hid : g.Within depth id)
    (hviable : ∀ x, g.Below id x → Viable f g x) (action? : Option String) (h : scope.Low height) :
    Yields (node g f depth id height scope action?) fun out => out.1.effect = 1 ∧
      ((action?.isSome → takesOver (g.shape id) = false) → out.2.Low (height + 1)) := by
  induction depth generalizing id height scope action? with
  | zero => exact hid.elim
  | succ depth ih =>
    have hnode (e : NodeId) (he : e ∈ g.children id) (action? : Option String) (height : Nat)
        (scope : Scope) (h : scope.Low height) := ih (hid.2 e he)
      (fun x hx => hviable x (.head he hx)) action? h
    have hchild (e : NodeId) (he : e ∈ g.children id) (height : Nat) (scope : Scope)
        (h : scope.Low height) :
        Yields ((·.1) <$> node g f depth e height scope none) (·.effect = 1) :=
      (hnode e he none height scope h).map fun out hout => hout.1
    have hup := h.mono (Nat.le_succ height)
    -- Code that leaves the labels as they are.
    have hscope {gen : Generate Code} (hgen : Yields gen (·.effect = 1)) :
        Yields (gen >>= fun code => pure (code, scope)) fun out => out.1.effect = 1 ∧
          ((action?.isSome → takesOver (g.shape id) = false) → out.2.Low (height + 1)) :=
      hgen.bind fun code hcode => yields_pure ⟨hcode, fun _ => hup⟩
    have hself := hviable id .refl
    rw [Grammar.children] at hnode hchild
    rw [node, level]
    generalize hshape : g.shape id = shape at hnode hchild hscope hself ⊢
    dsimp only
    cases shape with
    | named name e =>
      refine (yields_constant _).bind fun expected _ => ?_
      refine (hchild e List.mem_cons_self height scope h).bind fun c hc => ?_
      exact hscope (yields_named hc expected)
    | choice alternatives =>
      have hsome : alternatives ≠ [] := by
        rintro rfl
        exact hself.nonempty hshape
      refine (yields_alternatives fun e he => hchild e he height scope h).bind
        fun codes hcodes => ?_
      refine hscope (yields_choice ?_ hcodes.2)
      rw [← List.length_pos_iff, hcodes.1]
      exact List.length_pos_iff.mpr hsome
    | action e source =>
      dsimp only
      split
      · refine (hnode e List.mem_cons_self (some source) height scope h).bind fun out hout => ?_
        exact yields_pure ⟨hout.1, fun _ => hup⟩
      · next htakes =>
        refine (hnode e List.mem_cons_self (some source) (height + 1) scope hup).bind
          fun out hout => ?_
        exact hscope (yields_actionAround hout.1 source (hout.2 fun _ => by simpa using htakes))
    | sequence es =>
      refine (yields_elements (fun e he height scope h =>
        (hnode e he none height scope h).imp fun out hout =>
          ⟨hout.1, hout.2 (by rintro ⟨⟩)⟩) hup).bind fun out hout => ?_
      refine (yields_sequenceEnd es.length action? hout.2.2).bind fun tail htail => ?_
      refine Yields.bind (yields_nest hout.2.1 ?_) fun inner hinner => yields_pure ⟨?_, ?_⟩
      · rw [htail, Nat.zero_add, hout.1]
        rfl
      · simp [hinner, StackEffect.plain]
      · intro htakes
        dsimp only
        split
        · next hsome =>
          -- Nothing is left of the labels of elements where there are no elements.
          have hnone : es = [] := by simpa [takesOver] using htakes hsome
          subst hnone
          exact hout.2.2
        · exact hup
    | labeled label e =>
      refine (hchild e List.mem_cons_self height scope h).bind
        fun c hc => yields_pure ⟨hc, fun _ => ?_⟩
      cases label with
      | none => exact hup
      | some label => exact h.bind label
    | text e =>
      refine (hchild e List.mem_cons_self _ scope hup).bind fun c hc => ?_
      exact hscope (yields_text hc)
    | simpleAnd e =>
      refine (hchild e List.mem_cons_self _ scope hup).bind fun c hc => ?_
      exact hscope (yields_simplePredicate hc false)
    | simpleNot e =>
      refine (hchild e List.mem_cons_self _ scope hup).bind fun c hc => ?_
      exact hscope (yields_simplePredicate hc true)
    | optional e =>
      refine (hchild e List.mem_cons_self _ scope h).bind fun c hc => ?_
      exact hscope (yields_optional hc)
    | zeroOrMore e =>
      refine (hchild e List.mem_cons_self _ scope hup).bind fun c hc => ?_
      exact hscope (yields_zeroOrMore hc)
    | oneOrMore e =>
      refine (hchild e List.mem_cons_self _ scope hup).bind fun c hc => ?_
      exact hscope (yields_oneOrMore hc)
    | range min max e delimiter =>
      dsimp only
      split
      · exact yields_pure ⟨rfl, fun _ => hup⟩
      · refine (hchild e List.mem_cons_self _ [] (.nil _)).bind fun first hfirst => ?_
        cases delimiter with
        | none =>
          refine Yields.bind (yields_pure (Q := fun c => effect c = 1) hfirst)
            fun further hfurther => ?_
          exact hscope (yields_range min max hfirst hfurther)
        | some d =>
          have hd : d ∈ (Shape.range min max e (some d)).children :=
            List.mem_cons_of_mem _ (List.mem_singleton_self d)
          refine (hchild d hd _ [] (.nil _)).bind fun between hbetween => ?_
          refine (hchild e List.mem_cons_self _ [] (.nil _)).bind fun again hagain => ?_
          refine (yields_delimited hbetween hagain).bind fun further hfurther => ?_
          exact hscope (yields_range min max hfirst hfurther)
    | semanticAnd source => exact hscope (yields_semanticPredicate source false h)
    | semanticNot source => exact hscope (yields_semanticPredicate source true h)
    | ruleRef name =>
      obtain ⟨target, htarget⟩ := Option.isSome_iff_exists.mp (hself.resolved name hshape)
      rw [htarget]
      exact yields_pure ⟨rfl, fun _ => hup⟩
    | literal value ignoreCase => exact hscope (yields_literal value ignoreCase)
    | charClass parts inverted ignoreCase raw =>
      exact hscope (yields_charClass parts inverted ignoreCase raw _)
    | regex value ignoreCase multiLine raw =>
      exact hscope (yields_regex value ignoreCase multiLine raw _)
    | any =>
      refine (yields_constant _).bind fun e _ => ?_
      exact hscope (yields_terminal rfl)
    | epsilon => exact (yields_constant _).bind fun c _ => yields_pure ⟨rfl, fun _ => hup⟩
    | code source => exact hscope (yields_codeTerminal source h)

/-- Code is generated for all rules if it can be for all nodes below them. -/
theorem yields_rules {f : Facts} {g : Grammar} {rs : List Rule}
    (htrees : ∀ r ∈ rs, g.Tree r.expression)
    (hviable : ∀ r ∈ rs, ∀ x, g.Below r.expression x → Viable f g x) :
    Yields (rs.mapM (rule g f)) fun _ => True := by
  induction rs with
  | nil => exact yields_pure trivial
  | cons r rs ih =>
    have hnode := yields_node (htrees r List.mem_cons_self).within (hviable r List.mem_cons_self)
      none (.nil 0)
    have hrule : Yields (rule g f r) fun _ => True := by
      refine hnode.bind fun out hout => ?_
      dsimp only
      rw [if_pos hout.1]
      exact yields_pure trivial
    rw [List.mapM_cons]
    refine hrule.bind fun _ _ => ?_
    exact (ih (fun r hr => htrees r (List.mem_cons_of_mem _ hr))
      fun r hr => hviable r (List.mem_cons_of_mem _ hr)).bind fun _ _ => yields_pure trivial

end Generate

/-- Code is generated for a grammar if it can be for all nodes below its rules. -/
theorem Facts.exists_generated {f : Facts} {g : Grammar} (htrees : g.HasTrees)
    (hviable : ∀ r ∈ g.rules, ∀ x, g.Below r.expression x → Generate.Viable f g x) :
    ∃ c, f.generate g = .ok c := by
  obtain ⟨code, pools, hrun, -⟩ := Generate.yields_rules htrees hviable {}
  have hbind : f.generate g = ((g.rules.mapM (Generate.rule g f)).run {} >>=
    fun out => pure ⟨out.1, out.2⟩) := rfl
  rw [hbind, StateT.run, hrun]
  exact ⟨_, rfl⟩

end PegMachine
