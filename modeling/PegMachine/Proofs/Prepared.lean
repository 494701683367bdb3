import PegMachine.Proofs.Compiled

/-!
# Prepared code

Two instructions rely on the ones in front of them. A string constant is only taken where a
condition has seen that it follows, and an action is only run right after the register of actions
was set: to the current offset, or to an offset on the stack that is next to the entries that the
action replaces. Code is prepared if each of these instructions comes after what it relies on.
Generated code is.
-/

namespace PegMachine

/-- What is known in front of an instruction. -/
inductive Known where
  /-- Nothing in particular. -/
  | nothing
  /-- A string constant follows in the input. -/
  | follows (c : Nat)
  /-- The register of actions holds the current offset. -/
  | here
  /-- The register of actions holds the offset in the entry some places below the top. -/
  | saved (n : Nat)
  deriving DecidableEq, Repr

namespace Opcode

variable (arg : Nat → Nat) (k : Known)

/-- What has to be known in front of an instruction. -/
def Asks : Opcode → Prop
  | .acceptString => k = .follows (arg 1)
  | .call => (k = .here ∧ arg 2 = 0) ∨ k = .saved (arg 2)
  | _ => True

/-- What is known behind an instruction. -/
def learns : Opcode → Known
  | .updateSavedPos => .here
  | .loadSavedPos => .saved (arg 1)
  | .silentFailsOn => k
  | _ => .nothing

/-- What is known where a condition holds. -/
def shows : Opcode → Known
  | .matchString => .follows (arg 1)
  | _ => .nothing

end Opcode

namespace Instr

/-- What is known behind an instruction with its blocks. -/
def leaves (k : Known) : Instr → Known
  | .plain opcode operands => opcode.learns (arg operands) k
  | .branch .. | .loop _ => .nothing

mutual

/-- An instruction relies on nothing but what is known in front of it. -/
def Prepared : Known → Instr → Prop
  | k, .plain opcode operands => opcode.Asks (arg operands) k
  | _, .branch opcode operands held otherwise =>
    AllPrepared (opcode.shows (arg operands)) held ∧ AllPrepared .nothing otherwise
  | _, .loop body => AllPrepared .nothing body

/-- Each instruction relies on nothing but what is known in front of it. -/
def AllPrepared : Known → List Instr → Prop
  | _, [] => True
  | k, i :: rest => i.Prepared k ∧ AllPrepared (i.leaves k) rest

end

end Instr

namespace Code

variable {k : Known} {a b c : Code}

/-- Code relies on nothing but what is known in front of it. -/
def Prepared (c : Code) (k : Known := .nothing) : Prop := Instr.AllPrepared k c

theorem prepared_nil : Prepared [] k := trivial

/-- It does no harm to know more. -/
theorem Prepared.mono (h : c.Prepared) (k : Known) : c.Prepared k := by
  induction c generalizing k with
  | nil => trivial
  | cons i rest ih =>
    obtain ⟨hi, hrest⟩ := h
    cases i with
    | plain opcode operands =>
      refine ⟨?_, ?_⟩
      · cases opcode <;> simp_all [Instr.Prepared, Opcode.Asks]
      · cases opcode
        case silentFailsOn => exact ih hrest k
        all_goals exact hrest
    | branch opcode operands held otherwise => exact ⟨hi, hrest⟩
    | loop body => exact ⟨hi, hrest⟩

theorem Prepared.append (ha : a.Prepared k) (hb : b.Prepared) : (a ++ b).Prepared k := by
  induction a generalizing k with
  | nil => exact hb.mono k
  | cons i rest ih => exact ⟨ha.1, ih ha.2⟩

theorem prepared_branch {opcode : Opcode} {operands : List UInt32} {held otherwise : Code}
    (hheld : held.Prepared) (hotherwise : otherwise.Prepared) (hc : c.Prepared) :
    Prepared (.branch opcode operands held otherwise :: c) k :=
  ⟨⟨hheld.mono _, hotherwise⟩, hc⟩

theorem prepared_loop {body : Code} (hbody : body.Prepared) (hc : c.Prepared) :
    Prepared (.loop body :: c) k := ⟨hbody, hc⟩

/-- An instruction that relies on nothing. -/
theorem prepared_plain {opcode : Opcode} {operands : List UInt32}
    (hasks : opcode ≠ .acceptString ∧ opcode ≠ .call) (hc : c.Prepared) :
    Prepared (.plain opcode operands :: c) k := by
  refine ⟨?_, hc.mono _⟩
  cases opcode <;> simp_all [Instr.Prepared, Opcode.Asks]

end Code

/-! ## What is generated -/

namespace Generate

open Code

variable {α β : Type}

/-- Whatever is generated, if anything is, has a property. -/
def Ensures (Q : α → Prop) (m : Generate α) : Prop := ∀ p a q, m p = .ok (a, q) → Q a

theorem ensures_any (m : Generate α) : Ensures (fun _ => True) m := fun _ _ _ _ => trivial

theorem ensures_pure {Q : α → Prop} {a : α} (h : Q a) : Ensures Q (pure a) := by
  intro p b q hb
  exact (pure_eq_ok.mp hb).1 ▸ h

theorem Ensures.bind {Q : α → Prop} {R : β → Prop} {m : Generate α} {f : α → Generate β}
    (hm : Ensures Q m) (hf : ∀ a, Q a → Ensures R (f a)) : Ensures R (m >>= f) := by
  intro p b q hb
  obtain ⟨a, p', ha, hb⟩ := bind_eq_ok.mp hb
  exact hf a (hm _ _ _ ha) _ _ _ hb

theorem Ensures.map {Q : α → Prop} {R : β → Prop} {m : Generate α} {f : α → β} (hm : Ensures Q m)
    (hf : ∀ a, Q a → R (f a)) : Ensures R (f <$> m) := by
  intro p b q hb
  obtain ⟨a, ha, rfl⟩ := map_eq_ok.mp hb
  exact hf a (hm _ _ _ ha)

theorem Ensures.mapM {Q : β → Prop} {f : α → Generate β} (hf : ∀ a, Ensures Q (f a)) (as : List α) :
    Ensures (fun bs => ∀ b ∈ bs, Q b) (as.mapM f) := by
  induction as with
  | nil => exact ensures_pure nofun
  | cons a as ih =>
    rw [List.mapM_cons]
    refine (hf a).bind fun b hb => ih.bind fun bs hbs => ensures_pure ?_
    exact List.forall_mem_cons.mpr ⟨hb, hbs⟩

theorem ensures_branch (opcode : Opcode) (operands : List UInt32) (held otherwise : Code) :
    Ensures (· = .branch opcode operands held otherwise) (branch opcode operands held otherwise) :=
  fun _ _ _ h => (branch_eq_ok.mp h).2.1

theorem ensures_loop (body : Code) : Ensures (· = .loop body) (loop body) :=
  fun _ _ _ h => (loop_eq_ok.mp h).2.1

/-- The call of an action relies on the register of actions. -/
theorem ensures_call (f : UInt32) (replaced : Nat) (scope : Scope) (height : Nat) :
    Ensures (fun run => ∀ k, (k = .here ∧ replaced = 0) ∨ k = .saved (UInt32.ofNat replaced).toNat →
      ∀ c : Code, c.Prepared → Prepared (run :: c) k) (call f replaced scope height) := by
  intro p run q h k hk c hc
  obtain ⟨distances, -, -, rfl⟩ := call_eq_ok h
  refine ⟨?_, hc⟩
  rcases hk with ⟨rfl, rfl⟩ | rfl
  · exact .inl ⟨rfl, rfl⟩
  · exact .inr rfl

/-! ### Terminals -/

theorem ensures_terminal {opcode : Opcode} {operands : List UInt32} {accept : Instr} {e : UInt32}
    (haccept : Prepared [accept] (opcode.shows (Instr.arg operands))) :
    Ensures Prepared (terminal opcode operands accept e) := by
  refine (ensures_branch _ _ _ _).bind fun i hi => ensures_pure ?_
  rw [hi]
  exact ⟨⟨haccept, prepared_plain (by simp) prepared_nil⟩, prepared_nil⟩

theorem prepared_literal (value : String) (ignoreCase : Bool) :
    Ensures Prepared (literal value ignoreCase) := by
  rw [literal]
  split
  · exact (ensures_any _).bind fun w _ => ensures_pure (prepared_plain (by simp) prepared_nil)
  · split
    all_goals
      refine (ensures_any _).bind fun w _ => (ensures_any _).bind fun e _ => ensures_terminal ?_
    · exact prepared_plain (by simp) prepared_nil
    · exact ⟨rfl, trivial⟩

theorem prepared_charClass (parts : List ClassPart) (inverted ignoreCase : Bool) (raw : String)
    (location : Option Location) :
    Ensures Prepared (charClass parts inverted ignoreCase raw location) := by
  refine (ensures_any _).bind fun _ _ => (ensures_any _).bind fun e _ => ?_
  split
  · split
    · exact ensures_terminal (prepared_plain (by simp) prepared_nil)
    · exact ensures_pure (prepared_plain (by simp) prepared_nil)
  · exact (ensures_any _).bind fun r _ => ensures_terminal (prepared_plain (by simp) prepared_nil)

theorem prepared_regex (value : String) (ignoreCase multiLine : Bool) (raw : String)
    (location : Option Location) :
    Ensures Prepared (regex value ignoreCase multiLine raw location) := by
  have hrest : Ensures Prepared (do
      let r ← pattern value ignoreCase multiLine
      let e ← expectation (.regex raw)
      terminal .matchRegexp [r] (op1 .acceptRegexp r) e) :=
    (ensures_any _).bind fun r _ => (ensures_any _).bind fun e _ =>
      ensures_terminal (prepared_plain (by simp) prepared_nil)
  rw [regex]
  split
  · exact (ensures_any _).bind fun _ _ => hrest
  · exact hrest

/-! ### Actions -/

theorem ensures_afterFailure {recovery : Code} (h : recovery.Prepared) :
    Ensures (fun i => Prepared [i]) (afterFailure recovery) := by
  intro p i q hi
  rw [ensures_branch _ _ _ _ p i q hi]
  exact prepared_branch h prepared_nil prepared_nil

theorem prepared_codeTerminal (source : String) (scope : Scope) (height : Nat) :
    Ensures Prepared (codeTerminal source scope height) := by
  refine (ensures_any _).bind fun f _ => (ensures_any _).bind fun e _ =>
    (ensures_call f 0 scope height).bind fun run hrun => ?_
  refine (ensures_afterFailure (prepared_plain (by simp) (prepared_plain (by simp)
    prepared_nil))).bind fun onFailure h => ensures_pure ⟨trivial, ?_⟩
  exact hrun .here (.inl ⟨rfl, rfl⟩) _ h

theorem prepared_semanticPredicate (source : String) (negative : Bool) (scope : Scope)
    (height : Nat) : Ensures Prepared (semanticPredicate source negative scope height) := by
  refine (ensures_any _).bind fun f _ => (ensures_call f 0 scope height).bind fun run hrun => ?_
  have hverdict {truthy falsy : Opcode} (ht : truthy ≠ .acceptString ∧ truthy ≠ .call)
      (hf : falsy ≠ .acceptString ∧ falsy ≠ .call) : Ensures Prepared (do
        let test ← branch .ifTruthy [] [op .pop, op truthy] [op .pop, op falsy]
        return [op .updateSavedPos, op .silentFailsOn, run, op .silentFailsOff, test]) := by
    refine (ensures_branch _ _ _ _).bind fun test h => ensures_pure ⟨trivial, trivial, ?_⟩
    refine hrun .here (.inl ⟨rfl, rfl⟩) _ (prepared_plain (by simp) (h ▸ prepared_branch ?_ ?_
      prepared_nil))
    · exact prepared_plain (by simp) (prepared_plain ht prepared_nil)
    · exact prepared_plain (by simp) (prepared_plain hf prepared_nil)
  cases negative
  · exact hverdict (by simp) (by simp)
  · exact hverdict (by simp) (by simp)

theorem prepared_actionAround {e : Code} (he : e.Prepared) (source : String) (scope : Scope)
    (height : Nat) : Ensures Prepared (actionAround e source scope height) := by
  refine (ensures_any _).bind fun f _ => (ensures_call f 1 scope (height + 2)).bind fun run hrun => ?_
  refine (ensures_branch _ _ _ _).bind fun test htest => ensures_pure ?_
  refine prepared_plain (by simp) (he.append (htest ▸ prepared_branch ⟨trivial, ?_⟩ prepared_nil
    (prepared_plain (by simp) prepared_nil)))
  exact hrun (.saved 1) (.inr rfl) _ prepared_nil

/-! ### Composite expressions -/

theorem prepared_simplePredicate {e : Code} (he : e.Prepared) (negative : Bool) :
    Ensures Prepared (simplePredicate e negative) := by
  have htest {test matched unmatched : Opcode}
      (hm : matched ≠ .acceptString ∧ matched ≠ .call)
      (hu : unmatched ≠ .acceptString ∧ unmatched ≠ .call) : Ensures Prepared (do
        let test ← branch test [] [op .pop, op matched, op .pushUndefined]
          [op .pop, op unmatched, op .pushFailed]
        return [op .pushCurrPos, op .silentFailsOn] ++ e ++ [op .silentFailsOff, test]) := by
    refine (ensures_branch _ _ _ _).bind fun test h => ensures_pure ?_
    refine prepared_plain (by simp) (prepared_plain (by simp) (he.append (prepared_plain (by simp)
      (h ▸ prepared_branch ?_ ?_ prepared_nil))))
    · exact prepared_plain (by simp) (prepared_plain hm (prepared_plain (by simp) prepared_nil))
    · exact prepared_plain (by simp) (prepared_plain hu (prepared_plain (by simp) prepared_nil))
  cases negative
  · exact htest (by simp) (by simp)
  · exact htest (by simp) (by simp)

theorem prepared_named {code : Code} (h : code.Prepared) (e : UInt32) :
    Ensures Prepared (named e code) := by
  refine (ensures_afterFailure (prepared_plain (by simp) (prepared_plain (by simp)
    prepared_nil))).bind fun test htest => ensures_pure ?_
  exact prepared_plain (by simp) (h.append (prepared_plain (by simp) htest))

theorem prepared_choice {codes : List Code} (h : ∀ code ∈ codes, code.Prepared) :
    Ensures Prepared (choice codes) := by
  induction codes with
  | nil => exact ensures_pure prepared_nil
  | cons first rest ih =>
    obtain ⟨hfirst, hrest⟩ := List.forall_mem_cons.mp h
    cases rest with
    | nil => exact ensures_pure hfirst
    | cons second rest =>
      refine (ih hrest).bind fun others hothers => ?_
      refine (ensures_afterFailure (prepared_plain (by simp) hothers)).bind fun test htest =>
        ensures_pure (hfirst.append htest)

theorem prepared_text {e : Code} (he : e.Prepared) : Ensures Prepared (text e) := by
  refine (ensures_branch _ _ _ _).bind fun test htest => ensures_pure ?_
  refine prepared_plain (by simp) (he.append (htest ▸ prepared_branch ?_ ?_ prepared_nil))
  · exact prepared_plain (by simp) (prepared_plain (by simp) prepared_nil)
  · exact prepared_plain (by simp) prepared_nil

theorem prepared_optional {e : Code} (he : e.Prepared) : Ensures Prepared (optional e) := by
  refine (ensures_afterFailure (prepared_plain (by simp) (prepared_plain (by simp)
    prepared_nil))).bind fun test htest => ensures_pure (he.append htest)

theorem ensures_appendLoop {e : Code} (he : e.Prepared) :
    Ensures (fun i => ∀ c : Code, c.Prepared → Prepared (i :: c)) (appendLoop e) := by
  intro p i q hi c hc
  rw [ensures_loop _ p i q hi]
  exact prepared_loop (prepared_plain (by simp) he) hc

theorem prepared_zeroOrMore {e : Code} (he : e.Prepared) : Ensures Prepared (zeroOrMore e) := by
  refine (ensures_appendLoop he).bind fun again hagain => ensures_pure ?_
  exact prepared_plain (by simp) (he.append (hagain _ (prepared_plain (by simp) prepared_nil)))

theorem prepared_oneOrMore {e : Code} (he : e.Prepared) : Ensures Prepared (oneOrMore e) := by
  refine (ensures_appendLoop he).bind fun again hagain =>
    (ensures_branch _ _ _ _).bind fun test htest => ensures_pure ?_
  refine prepared_plain (by simp) (he.append (htest ▸ prepared_branch ?_ ?_ prepared_nil))
  · exact hagain _ (prepared_plain (by simp) prepared_nil)
  · exact prepared_plain (by simp) (prepared_plain (by simp) (prepared_plain (by simp)
      prepared_nil))

theorem prepared_restoreAndFail : restoreAndFail.Prepared :=
  prepared_plain (by simp) (prepared_plain (by simp) (prepared_plain (by simp) prepared_nil))

theorem prepared_delimited {delimiter e : Code} (hd : delimiter.Prepared) (he : e.Prepared) :
    Ensures Prepared (delimited delimiter e) := by
  have hnip : Prepared [op .nip] := prepared_plain (by simp) prepared_nil
  refine (ensures_branch _ _ _ _).bind fun inner hinner =>
    (ensures_branch _ _ _ _).bind fun outer houter => ensures_pure ?_
  refine prepared_plain (by simp) (hd.append (houter ▸ prepared_branch ?_ hnip prepared_nil))
  exact prepared_plain (by simp) (he.append (hinner ▸ prepared_branch prepared_restoreAndFail hnip
    prepared_nil))

theorem prepared_range {first further : Code} (hfirst : first.Prepared)
    (hfurther : further.Prepared) (min : UInt32) (max : Option UInt32) :
    Ensures Prepared (range min max first further) := by
  have hwhole {bounded : Code} (hbounded : bounded.Prepared) : Ensures Prepared (do
      let loop ← appendLoop bounded
      let main := [op .pushEmptyArray] ++ first ++ [loop, op .pop]
      if min = 0 then return main
      let test ← branch .ifArrlenMin [min] restoreAndFail [op .nip]
      return [op .pushCurrPos] ++ main ++ [test]) := by
    refine (ensures_appendLoop hbounded).bind fun again hagain => ?_
    have hmain : Prepared ([op .pushEmptyArray] ++ first ++ [again, op .pop]) :=
      prepared_plain (by simp) (hfirst.append (hagain _ (prepared_plain (by simp) prepared_nil)))
    dsimp only
    split
    · exact ensures_pure hmain
    · refine (ensures_branch _ _ _ _).bind fun test htest => ensures_pure ?_
      exact prepared_plain (by simp) (hmain.append (htest ▸ prepared_branch prepared_restoreAndFail
        (prepared_plain (by simp) prepared_nil) prepared_nil))
  cases max with
  | none => exact hwhole hfurther
  | some max =>
    refine (ensures_branch _ _ _ _).bind fun test htest => hwhole ?_
    exact htest ▸ prepared_branch (prepared_plain (by simp) prepared_nil) hfurther prepared_nil

theorem prepared_cleanup (processed : Nat) : (cleanup processed).Prepared := by
  have hrest : Prepared [op .popCurrPos, op .pushFailed] :=
    prepared_plain (by simp) (prepared_plain (by simp) prepared_nil)
  unfold cleanup
  split
  · exact prepared_plain (by simp) hrest
  · exact prepared_plain (by simp) hrest

theorem prepared_nest {tail : Code} (htail : tail.Prepared) {codes : List Code}
    (h : ∀ code ∈ codes, code.Prepared) (place : Nat) :
    Ensures Prepared (nest tail place codes) := by
  induction codes generalizing place with
  | nil => exact ensures_pure htail
  | cons code codes ih =>
    obtain ⟨hcode, hcodes⟩ := List.forall_mem_cons.mp h
    refine (ih hcodes (place + 1)).bind fun inner hinner =>
      (ensures_branch _ _ _ _).bind fun test htest => ensures_pure ?_
    exact hcode.append (htest ▸ prepared_branch hinner (prepared_cleanup _) prepared_nil)

theorem prepared_sequenceEnd (n : Nat) (action? : Option String) (scope : Scope) (height : Nat) :
    Ensures Prepared (sequenceEnd n action? scope height) := by
  cases action? with
  | none =>
    exact ensures_pure (prepared_plain (by simp) (prepared_plain (by simp) prepared_nil))
  | some source =>
    refine (ensures_any _).bind fun f _ => (ensures_call f n scope height).bind fun run hrun =>
      ensures_pure ⟨trivial, ?_⟩
    exact hrun (.saved (UInt32.ofNat n).toNat) (.inr rfl) _ (prepared_plain (by simp) prepared_nil)

theorem prepared_elements {node : NodeId → Nat → Scope → Generate (Code × Scope)}
    (hnode : ∀ e height scope, Ensures (fun r => r.1.Prepared) (node e height scope))
    (es : List NodeId) (height : Nat) (scope : Scope) :
    Ensures (fun r => ∀ code ∈ r.1, code.Prepared) (elements node es height scope) := by
  induction es generalizing height scope with
  | nil => exact ensures_pure nofun
  | cons e es ih =>
    refine (hnode e height scope).bind fun r hr => (ih (height + 1) r.2).bind fun rs hrs =>
      ensures_pure ?_
    exact List.forall_mem_cons.mpr ⟨hr, hrs⟩

/-- The code of every node is prepared. -/
theorem prepared_node (g : Grammar) (f : Facts) (depth : Nat) (id : NodeId) (height : Nat)
    (scope : Scope) (action? : Option String) :
    Ensures (fun r => r.1.Prepared) (node g f depth id height scope action?) := by
  induction depth generalizing id height scope action? with
  | zero => exact ensures_pure prepared_nil
  | succ depth ih =>
    have hchild (e : NodeId) (height : Nat) (scope : Scope) :
        Ensures Prepared ((·.1) <$> node g f depth e height scope none) :=
      (ih e height scope none).map fun _ h => h
    have hwhole {m : Generate Code} (hm : Ensures Prepared m) (scope : Scope) :
        Ensures (fun r : Code × Scope => r.1.Prepared) (do return (← m, scope)) :=
      hm.bind fun _ h => ensures_pure h
    rw [node, level]
    cases hshape : g.shape id with
    | named name e =>
      exact (ensures_any _).bind fun expected _ => (hchild e height scope).bind fun c hc =>
        hwhole (prepared_named hc expected) scope
    | choice alternatives =>
      exact (Ensures.mapM (fun e => hchild e height scope) alternatives).bind fun codes hcodes =>
        hwhole (prepared_choice hcodes) scope
    | action e source =>
      dsimp only
      split
      · exact (ih e height scope _).bind fun r hr => ensures_pure hr
      · exact (ih e (height + 1) scope _).bind fun r hr =>
          hwhole (prepared_actionAround hr source r.2 height) scope
    | sequence es =>
      refine (prepared_elements (fun e height scope => ih e height scope none) es (height + 1)
        scope).bind fun r hr => ?_
      exact (prepared_sequenceEnd _ _ _ _).bind fun tail htail =>
        (prepared_nest htail hr 0).bind fun c hc => ensures_pure (prepared_plain (by simp) hc)
    | labeled label e => exact (hchild e height scope).bind fun c hc => ensures_pure hc
    | text e =>
      exact (hchild e (height + 1) scope).bind fun c hc => hwhole (prepared_text hc) scope
    | simpleAnd e =>
      exact (hchild e (height + 1) scope).bind fun c hc =>
        hwhole (prepared_simplePredicate hc false) scope
    | simpleNot e =>
      exact (hchild e (height + 1) scope).bind fun c hc =>
        hwhole (prepared_simplePredicate hc true) scope
    | optional e =>
      exact (hchild e height scope).bind fun c hc => hwhole (prepared_optional hc) scope
    | zeroOrMore e =>
      exact (hchild e (height + 1) scope).bind fun c hc => hwhole (prepared_zeroOrMore hc) scope
    | oneOrMore e =>
      exact (hchild e (height + 1) scope).bind fun c hc => hwhole (prepared_oneOrMore hc) scope
    | range min max e delimiter =>
      dsimp only
      split
      · exact ensures_pure (prepared_plain (by simp) prepared_nil)
      · refine (hchild e _ []).bind fun first hfirst => ?_
        cases delimiter with
        | none => exact hwhole (prepared_range hfirst hfirst min max) scope
        | some d =>
          exact (hchild d _ []).bind fun between hbetween => (hchild e _ []).bind fun again
            hagain => (prepared_delimited hbetween hagain).bind fun further hfurther =>
              hwhole (prepared_range hfirst hfurther min max) scope
    | semanticAnd source =>
      exact hwhole (prepared_semanticPredicate source false scope height) scope
    | semanticNot source =>
      exact hwhole (prepared_semanticPredicate source true scope height) scope
    | ruleRef name =>
      cases htarget : f.target? id with
      | none => exact fun p r q h => by cases h
      | some rule => exact ensures_pure (prepared_plain (by simp) prepared_nil)
    | literal value ignoreCase => exact hwhole (prepared_literal value ignoreCase) scope
    | charClass parts inverted ignoreCase raw =>
      exact hwhole (prepared_charClass parts inverted ignoreCase raw _) scope
    | regex value ignoreCase multiLine raw =>
      exact hwhole (prepared_regex value ignoreCase multiLine raw _) scope
    | any =>
      exact (ensures_any _).bind fun e _ =>
        hwhole (ensures_terminal (prepared_plain (by simp) prepared_nil)) scope
    | epsilon =>
      exact (ensures_any _).bind fun c _ => ensures_pure (prepared_plain (by simp) prepared_nil)
    | code source => exact hwhole (prepared_codeTerminal source scope height) scope

theorem prepared_rule (g : Grammar) (f : Facts) (r : Rule) : Ensures Prepared (rule g f r) := by
  refine (prepared_node g f _ _ _ _ _).bind fun c hc => ?_
  dsimp only
  split
  · exact ensures_pure hc
  · exact fun p r q h => nomatch h

end Generate

/-- The code that is generated for a rule is prepared. -/
theorem Facts.prepared_of_generate {f : Facts} {g : Grammar} {c : Generated}
    (h : f.generate g = .ok c) : ∀ code ∈ c.code, code.Prepared :=
  Generate.Ensures.mapM (Generate.prepared_rule g f) g.rules _ _ _ (Facts.generate_eq_ok h)

end PegMachine
