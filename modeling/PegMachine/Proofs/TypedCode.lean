import PegMachine.Proofs.Compiled
import PegMachine.Proofs.Typing

/-!
# Generated code is typed

The code of every node takes a stack whose labels hold values to the same stack with a result on
top, and closes every region without reports that it opens. As with the meaning of code, each
combination of expressions is generated from typed parts, and its code is typed; that the parts move
the stack as they should follows from the effect of the whole.

A walk that comes to the end of its depth generates nothing, which has another effect than code for
an expression has. So code for a node also shows that no walk below the node comes to an end.
-/

namespace PegMachine

open Code

/-! ## Labels -/

/-- Labels lead to entries that are values. -/
def Scope.Within (scope : Scope) (kinds : Kinds) : Prop :=
  ∀ l ∈ scope, kinds.reverse[l.2]? = some .value

namespace Scope.Within

variable {scope : Scope} {kinds : Kinds}

theorem nil : Scope.Within [] kinds := nofun

/-- What is pushed does not matter. -/
theorem push (h : scope.Within kinds) (k : Kind) : scope.Within (k :: kinds) := by
  intro l hl
  have hvalue := h l hl
  have hlt : l.2 < kinds.reverse.length := (List.getElem?_eq_some_iff.mp hvalue).choose
  rw [List.reverse_cons, List.getElem?_append_left hlt, hvalue]

/-- A label is bound to a value that is pushed. -/
theorem bind (h : scope.Within kinds) (label : String) :
    (scope.bind label kinds.length).Within (.value :: kinds) := by
  have hpushed : (.value :: kinds : Kinds).reverse[kinds.length]? = some .value := by simp
  have hpush := h.push .value
  clear h
  induction scope with
  | nil =>
    intro l hl
    rw [List.mem_singleton.mp hl]
    exact hpushed
  | cons first scope ih =>
    obtain ⟨other, slot⟩ := first
    have hrest : Scope.Within scope (.value :: kinds) := fun l hl => hpush l (List.mem_cons_of_mem _ hl)
    intro l hl
    rw [Scope.bind] at hl
    split at hl
    · rcases List.mem_cons.mp hl with rfl | hl
      · exact hpushed
      · exact hrest l hl
    · rcases List.mem_cons.mp hl with rfl | hl
      · exact hpush _ List.mem_cons_self
      · exact ih hrest l hl

theorem after (h : scope.Within kinds) (g : Grammar) (id : NodeId) :
    (scope.after g id kinds.length).Within (.value :: kinds) := by
  unfold Scope.after
  split
  · next label _ _ => exact h.bind label
  · exact h.push .value

/-- The distances of labels lead to values. -/
theorem distances (h : scope.Within kinds) (hsize : kinds.length ≤ 2 ^ 32) {ds : List UInt32}
    (hds : scope.distances kinds.length = .ok ds) : ∀ d ∈ ds, kinds[d.toNat]? = some .value := by
  induction scope generalizing ds with
  | nil =>
    cases hds
    nofun
  | cons first scope ih =>
    obtain ⟨label, slot⟩ := first
    rw [Scope.distances] at hds
    split at hds
    · next hlt =>
      obtain ⟨others, hothers, hds⟩ := PegMachine.bind_eq_ok.mp hds
      cases hds
      intro d hd
      rcases List.mem_cons.mp hd with rfl | hd
      · have hvalue := h _ List.mem_cons_self
        rw [List.getElem?_reverse hlt] at hvalue
        rw [UInt32.toNat_ofNat_of_lt' (by rw [UInt32.size]; omega)]
        exact hvalue
      · exact ih (fun l hl => h l (List.mem_cons_of_mem _ hl)) hothers d hd
    · cases hds

end Scope.Within

/-! ## Depth -/

/-- The parts that the evaluation of an expression may come to. -/
def Shape.parts : Shape → List NodeId
  | .range min max e delimiter => if max = some 0 ∧ min = 0 then [] else e :: delimiter.toList
  | shape => shape.children

/-- No evaluation that starts at a node takes more than some number of steps down. -/
def Grammar.Grounded (g : Grammar) : Nat → NodeId → Prop
  | 0, _ => False
  | depth + 1, id => ∀ e ∈ (g.shape id).parts, Grounded g depth e

/-! ## Types -/

/-- Code of one entry is typed on every stack of some height, and some facts hold of its parts. -/
structure Types (P : Program) (code : Code) (height : Nat) (scope : Scope) (facts : Prop) :
    Prop where
  typed : code.effect = 1 → height + code.size < 2 ^ 32 → ∀ kinds : Kinds, kinds.length = height →
    scope.Within kinds → Code.Typed P code 0 kinds 0 (.result :: kinds)
  facts : code.effect = 1 → facts

variable {P : Program} {p q : Pools} {code whole c : Code} {height n n' : Nat} {scope : Scope}
  {kinds kinds' : Kinds} {facts : Prop}

/-- Code that was generated for one slot more is typed above any entry. -/
theorem Types.above (h : Types P code (height + 1) scope facts) (heffect : code.effect = 1)
    (hsize : height + 1 + code.size < 2 ^ 32) (hheight : kinds.length = height)
    (hscope : scope.Within kinds) (k : Kind) :
    Code.Typed P code 0 (k :: kinds) 0 (.result :: k :: kinds) :=
  h.typed heffect hsize _ (by rw [List.length_cons, hheight]) (hscope.push k)

/-- Facts can be forgotten. -/
theorem Types.imp {facts' : Prop} (h : Types P code height scope facts) (himp : facts → facts') :
    Types P code height scope facts' := ⟨h.typed, fun heffect => himp (h.facts heffect)⟩

namespace Generate

theorem refers_expectation {e : Expectation} {w : UInt32} (hP : P.Addressable)
    (h : expectation e p = .ok (w, q)) (hq : P.Extends q) :
    P.Extends p ∧ ∃ e, P.constants[w.toNat]? = some (.expected e) :=
  (constant_eq_ok hP h hq).imp_right fun hc => ⟨e, hc⟩

theorem refers_string {value : String} {w : UInt32} (hP : P.Addressable)
    (h : string value p = .ok (w, q)) (hq : P.Extends q) :
    P.Extends p ∧ ∃ value, P.constants[w.toNat]? = some (.string value) :=
  (constant_eq_ok hP h hq).imp_right fun hc => ⟨value, hc⟩

/-! ## Terminals -/

/-- A condition that looks at the input, and what to do about the answer. -/
theorem typed_terminal {opcode : Opcode} {operands : List UInt32} {accept : Instr} {e : UInt32}
    (hsplits : opcode.Splits kinds kinds kinds) (hwidth : opcode.operands = operands.length + 2)
    (hrefers : P.Refers (Instr.arg operands) opcode)
    (haccept : Code.Typed P [accept] 0 kinds 0 (.value :: kinds))
    (he : ∃ e', P.constants[e.toNat]? = some (.expected e')) :
    Code.Typed P [.branch opcode operands [accept] [op1 .fail e]] 0 kinds 0 (.result :: kinds) := by
  have hheld := haccept.append (.forgotten (.top Kind.value_le_result kinds))
  have hfail : Code.Typed P [op1 .fail e] 0 kinds 0 (.result :: kinds) :=
    .fail he (.forgotten (.top Kind.failed_le_result kinds))
  exact .branch hsplits hwidth hrefers hheld hfail .nil

theorem typed_acceptN (w : UInt32) : Code.Typed P [op1 .acceptN w] 0 kinds 0 (.value :: kinds) :=
  .plain (by simp) .acceptN trivial rfl .nil

theorem literal_types {value : String} {ignoreCase : Bool} (hP : P.Addressable)
    (h : literal value ignoreCase p = .ok (whole, q)) (hq : P.Extends q) :
    P.Extends p ∧ Types P whole height scope True := by
  rw [literal] at h
  split at h
  · obtain ⟨w, p₁, hw, hwhole⟩ := bind_eq_ok.mp h
    obtain ⟨rfl, rfl⟩ := pure_eq_ok.mp hwhole
    obtain ⟨hp, hw⟩ := refers_string hP hw hq
    refine ⟨hp, fun _ _ kinds _ _ => ?_, fun _ => trivial⟩
    exact .push hw (.forgotten (.top Kind.value_le_result kinds))
  · split at h
    all_goals
      obtain ⟨w, p₁, hw, hrest⟩ := bind_eq_ok.mp h
      obtain ⟨e, p₂, he, hwhole⟩ := bind_eq_ok.mp hrest
      obtain ⟨rfl, rfl⟩ := terminal_eq_ok hwhole
      obtain ⟨hp₁, he⟩ := refers_expectation hP he hq
      obtain ⟨hp, hw⟩ := refers_string hP hw hp₁
      refine ⟨hp, fun _ _ kinds _ _ => ?_, fun _ => trivial⟩
    · exact typed_terminal .matchStringIc rfl hw (typed_acceptN _) he
    · exact typed_terminal .matchString rfl hw (.plain (by simp) .acceptString hw rfl .nil) he

theorem charClass_types {parts : List ClassPart} {inverted ignoreCase : Bool} {raw : String}
    {location : Option Location} (hP : P.Addressable)
    (h : charClass parts inverted ignoreCase raw location p = .ok (whole, q)) (hq : P.Extends q) :
    P.Extends p ∧ Types P whole height scope True := by
  obtain ⟨_, p₁, hdefects, hrest⟩ := bind_eq_ok.mp h
  obtain ⟨e, p₂, he, hrest⟩ := bind_eq_ok.mp hrest
  split at hrest
  · split at hrest
    · obtain ⟨rfl, rfl⟩ := terminal_eq_ok hrest
      obtain ⟨hp₁, he⟩ := refers_expectation hP he hq
      refine ⟨extends_of_defects hdefects hp₁, fun _ _ kinds _ _ => ?_, fun _ => trivial⟩
      exact typed_terminal .matchAny rfl trivial (typed_acceptN _) he
    · obtain ⟨rfl, rfl⟩ := pure_eq_ok.mp hrest
      obtain ⟨hp₁, he⟩ := refers_expectation hP he hq
      refine ⟨extends_of_defects hdefects hp₁, fun _ _ kinds _ _ => ?_, fun _ => trivial⟩
      exact .fail he (.forgotten (.top Kind.failed_le_result kinds))
  · obtain ⟨r, p₃, hr, hwhole⟩ := bind_eq_ok.mp hrest
    obtain ⟨rfl, rfl⟩ := terminal_eq_ok hwhole
    obtain ⟨hp₂, hr⟩ := constant_eq_ok hP hr hq
    obtain ⟨hp₁, he⟩ := refers_expectation hP he hp₂
    refine ⟨extends_of_defects hdefects hp₁, fun _ _ kinds _ _ => ?_, fun _ => trivial⟩
    exact typed_terminal .matchRegexp rfl ⟨_, _, _, hr⟩ (typed_acceptN _) he

theorem regex_types {value : String} {ignoreCase multiLine : Bool} {raw : String}
    {location : Option Location} (hP : P.Addressable)
    (h : regex value ignoreCase multiLine raw location p = .ok (whole, q)) (hq : P.Extends q) :
    P.Extends p ∧ Types P whole height scope True := by
  rw [regex] at h
  have hrest : ∃ p₁, (P.Extends p₁ → P.Extends p) ∧
      (do
        let r ← pattern value ignoreCase multiLine
        let e ← expectation (.regex raw)
        terminal .matchRegexp [r] (op1 .acceptRegexp r) e) p₁ = .ok (whole, q) := by
    split at h
    · obtain ⟨_, p₁, hdefect, hrest⟩ := bind_eq_ok.mp h
      exact ⟨p₁, extends_of_defect hdefect, hrest⟩
    · exact ⟨p, id, h⟩
  obtain ⟨p₁, hback, hrest⟩ := hrest
  obtain ⟨r, p₂, hr, hrest⟩ := bind_eq_ok.mp hrest
  obtain ⟨e, p₃, he, hwhole⟩ := bind_eq_ok.mp hrest
  obtain ⟨rfl, rfl⟩ := terminal_eq_ok hwhole
  obtain ⟨hp₂, he⟩ := refers_expectation hP he hq
  obtain ⟨hp₁, hr⟩ := constant_eq_ok hP hr hp₂
  refine ⟨hback hp₁, fun _ _ kinds _ _ => ?_, fun _ => trivial⟩
  exact typed_terminal .matchRegexp rfl ⟨_, _, _, hr⟩
    (.plain (by simp) .acceptRegexp ⟨_, _, _, hr⟩ rfl .nil) he

/-! ## Actions -/

/-- The call of an action replaces some entries by a result. -/
theorem typed_call {f : UInt32} {replaced : Nat} {run : Instr} {source : String}
    (h : call f replaced scope height p = .ok (run, q))
    (hf : P.actions[f.toNat]? = some ⟨scope.labels, source⟩)
    (hsize : height + run.assemble.length < 2 ^ 32) (hheight : kinds.length = height)
    (hscope : scope.Within kinds) (hreplaced : replaced ≤ height)
    (hnext : Code.Typed P c n (.result :: kinds.drop replaced) n' kinds') :
    Code.Typed P (run :: c) n kinds n' kinds' := by
  obtain ⟨ds, hds, rfl, rfl⟩ := call_eq_ok h
  subst hheight
  have hlength := Scope.length_distances hds
  have hcount : scope.length < 2 ^ 32 ∧ kinds.length < 2 ^ 32 := by
    simp only [length_assemble_plain, List.length_append, hlength] at hsize
    omega
  have h2 : Instr.arg ([f, UInt32.ofNat replaced, UInt32.ofNat scope.length] ++ ds) 2 = replaced :=
    UInt32.toNat_ofNat_of_lt' (show replaced < UInt32.size by rw [UInt32.size]; omega)
  have h3 : Instr.arg ([f, UInt32.ofNat replaced, UInt32.ofNat scope.length] ++ ds) 3 = ds.length := by
    rw [hlength]
    exact UInt32.toNat_ofNat_of_lt' (show scope.length < UInt32.size by rw [UInt32.size]; omega)
  have hvalues : ∀ i < Instr.arg ([f, UInt32.ofNat replaced, UInt32.ofNat scope.length] ++ ds) 3,
      kinds[Instr.arg ([f, UInt32.ofNat replaced, UInt32.ofNat scope.length] ++ ds) (4 + i)]? =
        some .value := by
    intro i hi
    rw [h3] at hi
    have harg : Instr.arg ([f, UInt32.ofNat replaced, UInt32.ofNat scope.length] ++ ds) (4 + i) =
        ds[i].toNat := by
      simp [Instr.arg, show 4 + i - 1 = i + 3 by omega, hi]
    rw [harg]
    exact hscope.distances hcount.2.le hds _ (List.getElem_mem hi)
  refine .plain ?_ (.call (h2.trans_le hreplaced) hvalues) ⟨_, hf, ?_⟩ rfl ?_
  · simp [hlength]
  · rw [h3, hlength]
    exact List.length_map _
  · rw [h2]
    exact hnext

theorem codeTerminal_types {source : String} (hP : P.Addressable)
    (h : codeTerminal source scope height p = .ok (whole, q)) (hq : P.Extends q) :
    P.Extends p ∧ Types P whole height scope True := by
  obtain ⟨f, p₁, hf, hrest⟩ := bind_eq_ok.mp h
  obtain ⟨e, p₂, he, hrest⟩ := bind_eq_ok.mp hrest
  obtain ⟨run, p₃, hrun, hrest⟩ := bind_eq_ok.mp hrest
  obtain ⟨onFailure, p₄, htest, hwhole⟩ := bind_eq_ok.mp hrest
  obtain ⟨-, rfl, rfl⟩ := branch_eq_ok.mp htest
  obtain ⟨rfl, rfl⟩ := pure_eq_ok.mp hwhole
  obtain ⟨-, -, rfl, -⟩ := call_eq_ok hrun
  obtain ⟨hp₁, he⟩ := refers_expectation hP he hq
  obtain ⟨hp, hf, -⟩ := action_eq_ok hP hf hp₁
  refine ⟨hp, fun _ hsize kinds hheight hscope => ?_, fun _ => trivial⟩
  simp only [size_cons] at hsize
  have hrecovery : Code.Typed P [op .pop, op1 .fail e] 0 (.failed :: kinds) 0 (.result :: kinds) :=
    .pop (.fail he (.forgotten (.top Kind.failed_le_result _)))
  refine .updateSavedPos (typed_call hrun hf (by omega) hheight hscope (Nat.zero_le _) ?_)
  exact .afterFailure hrecovery .nil

theorem semanticPredicate_types {source : String} {negative : Bool} (hP : P.Addressable)
    (h : semanticPredicate source negative scope height p = .ok (whole, q)) (hq : P.Extends q) :
    P.Extends p ∧ Types P whole height scope True := by
  obtain ⟨f, p₁, hf, hrest⟩ := bind_eq_ok.mp h
  obtain ⟨run, p₂, hrun, hrest⟩ := bind_eq_ok.mp hrest
  obtain ⟨truthy, falsy, htest, hverdicts⟩ : ∃ truthy falsy : Instr,
      (q = p₂ ∧ whole = [op .updateSavedPos, op .silentFailsOn, run, op .silentFailsOff,
        .branch .ifTruthy [] [op .pop, truthy] [op .pop, falsy]]) ∧
      ∀ verdict ∈ [truthy, falsy], ∀ kinds,
        Code.Typed P [verdict] 0 kinds 0 (.result :: kinds) := by
    have hundefined : ∀ kinds, Code.Typed P [op .pushUndefined] 0 kinds 0 (.result :: kinds) :=
      fun kinds => .pushUndefined (.forgotten (.top Kind.value_le_result kinds))
    have hfailed : ∀ kinds, Code.Typed P [op .pushFailed] 0 kinds 0 (.result :: kinds) :=
      fun kinds => .pushFailed (.forgotten (.top Kind.failed_le_result kinds))
    cases negative
    all_goals
      obtain ⟨test, p₃, htest, hwhole⟩ := bind_eq_ok.mp hrest
      obtain ⟨-, rfl, rfl⟩ := branch_eq_ok.mp htest
      refine ⟨_, _, (pure_eq_ok.mp hwhole).symm, ?_⟩
      simp [hundefined, hfailed]
  obtain ⟨rfl, rfl⟩ := htest
  obtain ⟨-, -, rfl, -⟩ := call_eq_ok hrun
  obtain ⟨hp, hf, -⟩ := action_eq_ok hP hf hq
  refine ⟨hp, fun _ hsize kinds hheight hscope => ?_, fun _ => trivial⟩
  simp only [size_cons] at hsize
  refine .updateSavedPos (.silentFailsOn (typed_call hrun hf (by omega) hheight hscope
    (Nat.zero_le _) (.silentFailsOff ?_)))
  exact .branch .ifTruthy rfl trivial (.pop (hverdicts truthy (by simp) _))
    (.pop (hverdicts falsy (by simp) _)) .nil

theorem actionAround_types {source : String} {inner : Scope} (hP : P.Addressable)
    (h : actionAround code source inner height p = .ok (whole, q)) (hq : P.Extends q) :
    P.Extends p ∧ ∀ (g : Grammar) (id : NodeId) (scope : Scope) (facts : Prop),
      Types P code (height + 1) scope facts →
      (code.effect = 1 → inner = scope.after g id (height + 1)) →
      Types P whole height scope facts := by
  obtain ⟨f, p₁, hf, hrest⟩ := bind_eq_ok.mp h
  obtain ⟨run, p₂, hrun, hrest⟩ := bind_eq_ok.mp hrest
  obtain ⟨test, p₃, htest, hwhole⟩ := bind_eq_ok.mp hrest
  obtain ⟨-, rfl, rfl⟩ := branch_eq_ok.mp htest
  obtain ⟨rfl, rfl⟩ := pure_eq_ok.mp hwhole
  have hrunEffect := effect_call hrun
  obtain ⟨-, -, rfl, -⟩ := call_eq_ok hrun
  obtain ⟨hp, hf, -⟩ := action_eq_ok hP hf hq
  refine ⟨hp, fun g id scope facts hx hinner => ?_⟩
  have hcode (heffect : effect ([op .pushCurrPos] ++ code ++
      [.branch .ifNotError [] [op1 .loadSavedPos 1, run] [], op .nip]) = 1) : code.effect = 1 := by
    simp [StackEffect.plain, hrunEffect] at heffect
    grind
  refine ⟨fun heffect hsize kinds hheight hscope => ?_, fun heffect => hx.facts (hcode heffect)⟩
  simp only [size_append, size_cons, size_nil, length_assemble_op, length_assemble_op1,
    length_assemble_branch] at hsize
  have hvalue : inner.Within (.value :: .pos :: kinds) := by
    have hafter := (hscope.push .pos).after g id
    rwa [List.length_cons, hheight, ← hinner (hcode heffect)] at hafter
  have hheld : Code.Typed P [op1 .loadSavedPos 1, run] 0 (.value :: .pos :: kinds) 0
      (.result :: .pos :: kinds) :=
    .loadSavedPos rfl (typed_call hrun hf (by omega) (by simp [hheight]) hvalue (by omega) .nil)
  refine .pushCurrPos ((hx.above (hcode heffect) (by omega) hheight hscope .pos).append ?_)
  exact .branch .ifNotError rfl trivial hheld (.forgotten (.top Kind.failed_le_result _)) (.nip .nil)

/-! ## Composite expressions -/

theorem named_types {e : UInt32} (h : named e code p = .ok (whole, q)) :
    q = p ∧ ∀ facts, (∃ e', P.constants[e.toNat]? = some (.expected e')) →
      Types P code height scope facts → Types P whole height scope facts := by
  obtain ⟨test, p₁, htest, hwhole⟩ := bind_eq_ok.mp h
  obtain ⟨-, rfl, rfl⟩ := branch_eq_ok.mp htest
  obtain ⟨rfl, rfl⟩ := pure_eq_ok.mp hwhole
  have hcode (heffect : effect ([op .silentFailsOn] ++ code ++
      [op .silentFailsOff, .branch .ifError [] [op .pop, op1 .fail e] []]) = 1) :
      code.effect = 1 := by
    simp [StackEffect.plain] at heffect
    grind
  refine ⟨rfl, fun facts he hx =>
    ⟨fun heffect hsize kinds hheight hscope => ?_, fun heffect => hx.facts (hcode heffect)⟩⟩
  simp only [size_append, size_cons] at hsize
  have hrecovery : Code.Typed P [op .pop, op1 .fail e] 0 (.failed :: kinds) 0 (.result :: kinds) :=
    .pop (.fail he (.forgotten (.top Kind.failed_le_result _)))
  have htyped := hx.typed (hcode heffect) (by omega) kinds hheight hscope
  exact .silentFailsOn (htyped.inside.append (.silentFailsOff (.afterFailure hrecovery .nil)))

theorem choice_types {codes : List Code} {factsOf : List Prop}
    (h : choice codes p = .ok (whole, q))
    (hx : List.Forall₂ (fun code facts => Types P code height scope facts) codes factsOf) :
    Types P whole height scope (∀ facts ∈ factsOf, facts) := by
  induction hx generalizing whole q with
  | nil =>
    obtain ⟨rfl, rfl⟩ := pure_eq_ok.mp h
    exact ⟨fun heffect => absurd heffect (by decide), fun heffect => absurd heffect (by decide)⟩
  | @cons first facts codes factsOf hx hrest ih =>
    cases hrest with
    | nil =>
      obtain ⟨rfl, rfl⟩ := pure_eq_ok.mp h
      exact hx.imp fun hfacts _ hmem => List.mem_singleton.mp hmem ▸ hfacts
    | @cons second facts' codes factsOf hy hrest =>
      obtain ⟨others, p₁, hothers, h⟩ := bind_eq_ok.mp h
      obtain ⟨test, p₂, htest, hwhole⟩ := bind_eq_ok.mp h
      obtain ⟨hbalance, rfl, rfl⟩ := branch_eq_ok.mp htest
      obtain ⟨rfl, rfl⟩ := pure_eq_ok.mp hwhole
      have hothers := ih hothers
      have hcode (heffect : effect (first ++ [.branch .ifError [] (op .pop :: others) []]) = 1) :
          first.effect = 1 ∧ others.effect = 1 := by
        simp [StackEffect.plain] at heffect hbalance
        grind
      refine ⟨fun heffect hsize kinds hheight hscope => ?_, fun heffect => ?_⟩
      · simp only [size_append, size_cons, size_nil, length_assemble_branch,
          length_assemble_op] at hsize
        obtain ⟨hfirst, hrest⟩ := hcode heffect
        have htyped := hothers.typed hrest (by omega) kinds hheight hscope
        exact (hx.typed hfirst (by omega) kinds hheight hscope).append (.afterFailure (.pop htyped) .nil)
      · obtain ⟨hfirst, hrest⟩ := hcode heffect
        exact List.forall_mem_cons.mpr ⟨hx.facts hfirst, hothers.facts hrest⟩

theorem text_types (h : text code p = .ok (whole, q)) :
    q = p ∧ ∀ facts, Types P code (height + 1) scope facts → Types P whole height scope facts := by
  obtain ⟨test, p₁, htest, hwhole⟩ := bind_eq_ok.mp h
  obtain ⟨-, rfl, rfl⟩ := branch_eq_ok.mp htest
  obtain ⟨rfl, rfl⟩ := pure_eq_ok.mp hwhole
  have hcode (heffect : effect ([op .pushCurrPos] ++ code ++
      [.branch .ifNotError [] [op .pop, op .text] [op .nip]]) = 1) : code.effect = 1 := by
    simp [StackEffect.plain] at heffect
    grind
  refine ⟨rfl, fun facts hx =>
    ⟨fun heffect hsize kinds hheight hscope => ?_, fun heffect => hx.facts (hcode heffect)⟩⟩
  simp only [size_append, size_cons, length_assemble_op] at hsize
  refine .pushCurrPos ((hx.above (hcode heffect) (by omega) hheight hscope .pos).append ?_)
  exact .branch .ifNotError rfl trivial
    (.pop (.text (.forgotten (.top Kind.value_le_result _))))
    (.nip (.forgotten (.top Kind.failed_le_result _))) .nil

theorem optional_types (h : optional code p = .ok (whole, q)) :
    q = p ∧ ∀ facts, Types P code height scope facts → Types P whole height scope facts := by
  obtain ⟨test, p₁, htest, hwhole⟩ := bind_eq_ok.mp h
  obtain ⟨-, rfl, rfl⟩ := branch_eq_ok.mp htest
  obtain ⟨rfl, rfl⟩ := pure_eq_ok.mp hwhole
  have hcode (heffect : effect (code ++ [.branch .ifError [] [op .pop, op .pushNull] []]) = 1) :
      code.effect = 1 := by
    simp [StackEffect.plain] at heffect
    grind
  refine ⟨rfl, fun facts hx =>
    ⟨fun heffect hsize kinds hheight hscope => ?_, fun heffect => hx.facts (hcode heffect)⟩⟩
  simp only [size_append] at hsize
  have hrecovery : Code.Typed P [op .pop, op .pushNull] 0 (.failed :: kinds) 0 (.result :: kinds) :=
    .pop (.pushNull (.forgotten (.top Kind.value_le_result _)))
  exact (hx.typed (hcode heffect) (by omega) kinds hheight hscope).append
    (.afterFailure hrecovery .nil)

theorem simplePredicate_types {negative : Bool}
    (h : simplePredicate code negative p = .ok (whole, q)) :
    q = p ∧ ∀ facts, Types P code (height + 1) scope facts → Types P whole height scope facts := by
  have hwhole : q = p ∧ whole = [op .pushCurrPos, op .silentFailsOn] ++ code ++
      [op .silentFailsOff, .branch (if negative then .ifError else .ifNotError) []
        [op .pop, op (if negative then .pop else .popCurrPos), op .pushUndefined]
        [op .pop, op (if negative then .popCurrPos else .pop), op .pushFailed]] := by
    cases negative <;>
    · obtain ⟨test, p₁, htest, hwhole⟩ := bind_eq_ok.mp h
      obtain ⟨-, rfl, rfl⟩ := branch_eq_ok.mp htest
      exact (pure_eq_ok.mp hwhole).symm
  obtain ⟨rfl, rfl⟩ := hwhole
  refine ⟨rfl, fun facts hx =>
    ⟨fun heffect hsize kinds hheight hscope => ?_, fun heffect => ?_⟩⟩
  · simp only [size_append, size_cons, length_assemble_op] at hsize
    have hundefined : Code.Typed P [op .pushUndefined] 0 kinds 0 (.result :: kinds) :=
      .pushUndefined (.forgotten (.top Kind.value_le_result _))
    have hfailed : Code.Typed P [op .pushFailed] 0 kinds 0 (.result :: kinds) :=
      .pushFailed (.forgotten (.top Kind.failed_le_result _))
    cases negative <;> simp [StackEffect.plain] at heffect
    all_goals
      have hcode := hx.above (by grind) (by omega) hheight hscope .pos
      refine .pushCurrPos (.silentFailsOn (hcode.inside.append (.silentFailsOff ?_)))
    · exact .branch .ifNotError rfl trivial (.pop (.popCurrPos hundefined)) (.pop (.pop hfailed)) .nil
    · exact .branch .ifError rfl trivial (.pop (.pop hundefined)) (.pop (.popCurrPos hfailed)) .nil
  · cases negative <;> simp [StackEffect.plain] at heffect
    all_goals exact hx.facts (by grind)

theorem zeroOrMore_types (h : zeroOrMore code p = .ok (whole, q)) :
    q = p ∧ ∀ facts, Types P code (height + 1) scope facts → Types P whole height scope facts := by
  obtain ⟨again, p₁, hagain, hwhole⟩ := bind_eq_ok.mp h
  obtain ⟨hbalance, rfl, rfl⟩ := loop_eq_ok.mp hagain
  obtain ⟨rfl, rfl⟩ := pure_eq_ok.mp hwhole
  have hcode : code.effect = 1 := by
    simp [StackEffect.plain] at hbalance
    grind
  refine ⟨rfl, fun facts hx =>
    ⟨fun _ hsize kinds hheight hscope => ?_, fun _ => hx.facts hcode⟩⟩
  simp only [size_append, size_cons, length_assemble_op] at hsize
  have htyped := hx.above hcode (by omega) hheight hscope .array
  refine .pushEmptyArray (htyped.append (.appendLoop htyped ?_))
  exact .pop (.forgotten (.top Kind.array_le_result _))

theorem oneOrMore_types (h : oneOrMore code p = .ok (whole, q)) :
    q = p ∧ ∀ facts, Types P code (height + 1) scope facts → Types P whole height scope facts := by
  obtain ⟨again, p₁, hagain, hrest⟩ := bind_eq_ok.mp h
  obtain ⟨hbalance, rfl, rfl⟩ := loop_eq_ok.mp hagain
  obtain ⟨test, p₂, htest, hwhole⟩ := bind_eq_ok.mp hrest
  obtain ⟨-, rfl, rfl⟩ := branch_eq_ok.mp htest
  obtain ⟨rfl, rfl⟩ := pure_eq_ok.mp hwhole
  have hcode : code.effect = 1 := by
    simp [StackEffect.plain] at hbalance
    grind
  refine ⟨rfl, fun facts hx =>
    ⟨fun _ hsize kinds hheight hscope => ?_, fun _ => hx.facts hcode⟩⟩
  simp only [size_append, size_cons, length_assemble_op] at hsize
  have htyped := hx.above hcode (by omega) hheight hscope .array
  have hheld : Code.Typed P [.loop (op .append :: code), op .pop] 0 (.value :: .array :: kinds) 0
      (.result :: kinds) :=
    .forget (.top Kind.value_le_result _)
      (.appendLoop htyped (.pop (.forgotten (.top Kind.array_le_result _))))
  refine .pushEmptyArray (htyped.append ?_)
  exact .branch .ifNotError rfl trivial hheld
    (.pop (.pop (.pushFailed (.forgotten (.top Kind.failed_le_result _))))) .nil

theorem typed_restoreAndFail {k : Kind} :
    Code.Typed P restoreAndFail 0 (k :: .pos :: kinds) 0 (.result :: kinds) :=
  .pop (.popCurrPos (.pushFailed (.forgotten (.top Kind.failed_le_result _))))

theorem delimited_types {between : Code} (h : delimited between code p = .ok (whole, q)) :
    q = p ∧ ∀ facts facts', Types P between (height + 1) [] facts →
      Types P code (height + 1) [] facts' → Types P whole height [] (facts ∧ facts') := by
  obtain ⟨inner, p₁, hinner, hrest⟩ := bind_eq_ok.mp h
  obtain ⟨outer, p₂, houter, hwhole⟩ := bind_eq_ok.mp hrest
  obtain ⟨-, rfl, rfl⟩ := branch_eq_ok.mp hinner
  obtain ⟨hbalance, rfl, rfl⟩ := branch_eq_ok.mp houter
  obtain ⟨rfl, rfl⟩ := pure_eq_ok.mp hwhole
  have hcodes (heffect : effect ([op .pushCurrPos] ++ between ++ [.branch .ifNotError []
      ([op .pop] ++ code ++ [.branch .ifError [] restoreAndFail [op .nip]]) [op .nip]]) = 1) :
      between.effect = 1 ∧ code.effect = 1 := by
    simp [StackEffect.plain, restoreAndFail] at heffect hbalance
    grind
  refine ⟨rfl, fun facts facts' hd hx => ⟨fun heffect hsize kinds hheight _ => ?_, fun heffect =>
    ⟨hd.facts (hcodes heffect).1, hx.facts (hcodes heffect).2⟩⟩⟩
  obtain ⟨hbetween, hcode⟩ := hcodes heffect
  simp only [size_append, size_cons, size_nil, length_assemble_op, length_assemble_branch] at hsize
  have hinner : Code.Typed P [.branch .ifError [] restoreAndFail [op .nip]] 0
      (.result :: .pos :: kinds) 0 (.result :: kinds) :=
    .branch .ifError rfl trivial typed_restoreAndFail
      (.nip (.forgotten (.top Kind.value_le_result _))) .nil
  have hitem := (hx.above hcode (by omega) hheight .nil .pos).append hinner
  refine .pushCurrPos ((hd.above hbetween (by omega) hheight .nil .pos).append ?_)
  exact .branch .ifNotError rfl trivial (.pop hitem)
    (.nip (.forgotten (.top Kind.failed_le_result _))) .nil

theorem range_types {min : UInt32} {max : Option UInt32} {first further : Code} {base : Nat}
    (hbase : (if 0 < min then height + 1 else height) = base)
    (h : range min max first further p = .ok (whole, q)) :
    q = p ∧ ∀ facts facts', Types P first (base + 1) [] facts →
      Types P further (base + 1) [] facts' → Types P whole height scope (facts ∧ facts') := by
  have hbounded : ∃ bounded : Code, (bounded.effect = 1 → further.effect = 1) ∧
      further.size ≤ bounded.size ∧
      (∀ kinds, Code.Typed P further 0 (.array :: kinds) 0 (.result :: .array :: kinds) →
        Code.Typed P bounded 0 (.array :: kinds) 0 (.result :: .array :: kinds)) ∧
      (do
        let loop ← appendLoop bounded
        let main := [op .pushEmptyArray] ++ first ++ [loop, op .pop]
        if min = 0 then return main
        let test ← branch .ifArrlenMin [min] restoreAndFail [op .nip]
        return [op .pushCurrPos] ++ main ++ [test]) p = .ok (whole, q) := by
    cases max with
    | none => exact ⟨further, id, le_rfl, fun _ => id, h⟩
    | some max =>
      obtain ⟨test, p₁, htest, hrest⟩ := bind_eq_ok.mp h
      obtain ⟨hbalance, rfl, rfl⟩ := branch_eq_ok.mp htest
      refine ⟨[.branch .ifArrlenMax [max] [op .pushFailed] further], fun _ => hbalance.symm, ?_,
        fun kinds hfurther => ?_, hrest⟩
      · simp only [size_cons, length_assemble_branch]
        omega
      · have henough : Code.Typed P [op .pushFailed] 0 (.array :: kinds) 0
            (.result :: .array :: kinds) :=
          .pushFailed (.forgotten (.top Kind.failed_le_result _))
        exact .branch .ifArrlenMax rfl trivial henough hfurther .nil
  obtain ⟨bounded, hfurtherEffect, hfurtherSize, hboundedTyped, hrest⟩ := hbounded
  obtain ⟨again, p₁, hagain, hmain⟩ := bind_eq_ok.mp hrest
  obtain ⟨hbalance, rfl, rfl⟩ := loop_eq_ok.mp hagain
  have hfurther : further.effect = 1 := by
    refine hfurtherEffect ?_
    simp [StackEffect.plain] at hbalance
    grind
  -- The items are collected in the same way with a lower bound and without one.
  have hitems {facts facts' : Prop} (hx : Types P first (base + 1) [] facts)
      (hy : Types P further (base + 1) [] facts') (heffect : first.effect = 1)
      (hsize : base + 1 + first.size < 2 ^ 32 ∧ base + 1 + further.size < 2 ^ 32) (kinds : Kinds)
      (hheight : kinds.length = base) : Code.Typed P
        ([op .pushEmptyArray] ++ first ++ [.loop (op .append :: bounded), op .pop]) 0 kinds 0
          (.array :: kinds) := by
    have hfirstTyped := hx.above heffect hsize.1 hheight .nil .array
    have hagain := hboundedTyped kinds (hy.above hfurther hsize.2 hheight .nil .array)
    exact .pushEmptyArray (hfirstTyped.append (.appendLoop hagain (.pop .nil)))
  split at hmain
  · next hmin =>
    obtain ⟨rfl, rfl⟩ := pure_eq_ok.mp hmain
    subst hmin
    obtain rfl : height = base := hbase
    have hfirst (heffect : effect ([op .pushEmptyArray] ++ first ++
        [.loop (op .append :: bounded), op .pop]) = 1) : first.effect = 1 := by
      simp [StackEffect.plain] at heffect
      grind
    refine ⟨rfl, fun facts facts' hx hy => ⟨fun heffect hsize kinds hheight _ => ?_, fun heffect =>
      ⟨hx.facts (hfirst heffect), hy.facts hfurther⟩⟩⟩
    simp only [size_append, size_cons, size_nil, length_assemble_op, length_assemble_loop] at hsize
    have htyped := hitems hx hy (hfirst heffect) (by omega) kinds hheight
    have hresult := htyped.append (.forgotten (.top Kind.array_le_result kinds))
    rwa [List.append_nil] at hresult
  · next hmin =>
    have hpos : 0 < min := UInt32.pos_iff_ne_zero.mpr hmin
    obtain ⟨test, p₂, htest, hwhole⟩ := bind_eq_ok.mp hmain
    obtain ⟨-, rfl, rfl⟩ := branch_eq_ok.mp htest
    obtain ⟨rfl, rfl⟩ := pure_eq_ok.mp hwhole
    rw [if_pos hpos] at hbase
    subst hbase
    have hfirst (heffect : effect ([op .pushCurrPos] ++ ([op .pushEmptyArray] ++ first ++
        [.loop (op .append :: bounded), op .pop]) ++
          [.branch .ifArrlenMin [min] restoreAndFail [op .nip]]) = 1) : first.effect = 1 := by
      simp [StackEffect.plain, restoreAndFail] at heffect
      grind
    refine ⟨rfl, fun facts facts' hx hy => ⟨fun heffect hsize kinds hheight _ => ?_, fun heffect =>
      ⟨hx.facts (hfirst heffect), hy.facts hfurther⟩⟩⟩
    simp only [size_append, size_cons, size_nil, length_assemble_op, length_assemble_loop] at hsize
    have htyped := hitems hx hy (hfirst heffect) (by omega) (.pos :: kinds) (by simp [hheight])
    exact .pushCurrPos (htyped.append (.branch .ifArrlenMin rfl trivial typed_restoreAndFail
      (.nip (.forgotten (.top Kind.array_le_result _))) .nil))

/-! ## Sequences -/

/-- The code of the elements of a sequence is typed, each in the scope that the one before left. -/
inductive ElementsTyped (P : Program) (g : Grammar) (factsOf : NodeId → Prop) :
    List Code → List NodeId → Nat → Scope → Scope → Prop
  /-- There are no elements. -/
  | nil {height : Nat} {scope : Scope} : ElementsTyped P g factsOf [] [] height scope scope
  /-- The code of the first element is typed, and so is that of the others. -/
  | cons {code : Code} {codes : List Code} {e : NodeId} {es : List NodeId} {height : Nat}
      {scope scope' inner : Scope} (first : Types P code height scope (factsOf e))
      (after : code.effect = 1 → scope' = scope.after g e height)
      (rest : ElementsTyped P g factsOf codes es (height + 1) scope' inner) :
      ElementsTyped P g factsOf (code :: codes) (e :: es) height scope inner

section

variable {g : Grammar} {factsOf : NodeId → Prop} {inner : Scope} {codes : List Code}
  {es : List NodeId} {tail : Code}

theorem elements_typed {node : NodeId → Nat → Scope → Generate (Code × Scope)}
    (hnode : ∀ e height scope p code scope' q, node e height scope p = .ok ((code, scope'), q) →
      P.Extends q → P.Extends p ∧ Types P code height scope (factsOf e) ∧
        (code.effect = 1 → scope' = scope.after g e height))
    (h : elements node es height scope p = .ok ((codes, inner), q)) (hq : P.Extends q) :
    P.Extends p ∧ ElementsTyped P g factsOf codes es height scope inner := by
  induction es generalizing height scope p codes with
  | nil =>
    obtain ⟨heq, rfl⟩ := pure_eq_ok.mp h
    cases heq
    exact ⟨hq, .nil⟩
  | cons e es ih =>
    obtain ⟨⟨code, scope'⟩, p₁, hfirst, hrest⟩ := bind_eq_ok.mp h
    obtain ⟨⟨codes', inner'⟩, p₂, hothers, hwhole⟩ := bind_eq_ok.mp hrest
    obtain ⟨heq, rfl⟩ := pure_eq_ok.mp hwhole
    cases heq
    obtain ⟨hp₁, hothers⟩ := ih hothers
    obtain ⟨hp, htypes, hafter⟩ := hnode _ _ _ _ _ _ _ hfirst hp₁
    exact ⟨hp, .cons htypes hafter hothers⟩

/-- Every element of a balanced sequence leaves one entry. -/
theorem effect_of_nest {place : Nat} (h : nest tail place codes p = .ok (whole, q))
    (heffect : whole.effect = -(UInt32.ofNat place).toInt32) : ∀ code ∈ codes, code.effect = 1 := by
  induction codes generalizing place whole q with
  | nil => nofun
  | cons code codes ih =>
    obtain ⟨nested, p₁, hnested, hrest⟩ := bind_eq_ok.mp h
    obtain ⟨test, p₂, htest, hwhole⟩ := bind_eq_ok.mp hrest
    obtain ⟨hbalance, rfl, rfl⟩ := branch_eq_ok.mp htest
    obtain ⟨rfl, rfl⟩ := pure_eq_ok.mp hwhole
    rw [effect_cleanup] at hbalance
    have hcode : code.effect = 1 := by
      simp [hbalance] at heffect
      grind
    exact List.forall_mem_cons.mpr ⟨hcode, ih hnested hbalance⟩

/-- What is known of all elements. -/
theorem ElementsTyped.allFacts (h : ElementsTyped P g factsOf codes es height scope inner)
    (heffect : ∀ code ∈ codes, code.effect = 1) : ∀ e ∈ es, factsOf e := by
  induction h with
  | nil => nofun
  | cons first _ _ ih =>
    obtain ⟨hfirst, hrest⟩ := List.forall_mem_cons.mp heffect
    exact List.forall_mem_cons.mpr ⟨first.facts hfirst, ih hrest⟩

/-- The entries while a sequence runs: a value for each element so far, and the offset where it
began. -/
def sequenceKinds (place : Nat) (kinds : Kinds) : Kinds :=
  List.replicate place .value ++ .pos :: kinds

theorem length_sequenceKinds (place : Nat) (kinds : Kinds) :
    (sequenceKinds place kinds).length = place + 1 + kinds.length := by
  rw [sequenceKinds, List.length_append, List.length_replicate, List.length_cons]
  omega

theorem drop_sequenceKinds (place : Nat) (kinds : Kinds) :
    (sequenceKinds place kinds).drop place = .pos :: kinds := by
  rw [sequenceKinds, List.drop_left' (List.length_replicate ..)]

/-- The offset where a sequence began is found below its values. -/
theorem getElem?_sequenceKinds (place : Nat) (kinds : Kinds) :
    (sequenceKinds place kinds)[place]? = some .pos := by
  rw [← List.head?_drop, drop_sequenceKinds]
  rfl

theorem typed_cleanup {place : Nat} (hplace : place + 1 < 2 ^ 32) :
    Code.Typed P (cleanup (place + 1)) 0 (.failed :: sequenceKinds place kinds) 0
      (.result :: kinds) := by
  have hrest : Code.Typed P [op .popCurrPos, op .pushFailed] 0 (.pos :: kinds) 0
      (.result :: kinds) :=
    .popCurrPos (.pushFailed (.forgotten (.top Kind.failed_le_result _)))
  cases place with
  | zero => exact .pop hrest
  | succ place =>
    have hword : (UInt32.ofNat (place + 1 + 1)).toNat = place + 1 + 1 :=
      UInt32.toNat_ofNat_of_lt' hplace
    refine .popN hword ?_ ?_
    · rw [List.length_cons, length_sequenceKinds]
      omega
    · rw [List.drop_succ_cons, drop_sequenceKinds]
      exact hrest

/-- The end of a sequence makes one result of the values of its elements. -/
theorem sequenceEnd_typed {m : Nat} {action? : Option String} (hP : P.Addressable)
    (h : sequenceEnd m action? inner height p = .ok (tail, q)) (hq : P.Extends q) :
    P.Extends p ∧ (height + tail.size < 2 ^ 32 → ∀ kinds : Kinds,
      (sequenceKinds m kinds).length = height → inner.Within (sequenceKinds m kinds) →
        Code.Typed P tail 0 (sequenceKinds m kinds) 0 (.result :: kinds)) := by
  cases action? with
  | none =>
    obtain ⟨rfl, rfl⟩ := pure_eq_ok.mp h
    refine ⟨hq, fun hsize kinds hheight _ => ?_⟩
    have hlength := length_sequenceKinds m kinds
    have hword : (UInt32.ofNat m).toNat = m :=
      UInt32.toNat_ofNat_of_lt' (show m < UInt32.size by rw [UInt32.size]; omega)
    have hvalues : ∀ k ∈ (sequenceKinds m kinds).take m, k = .value := by
      intro k hk
      rw [sequenceKinds, List.take_left' (List.length_replicate ..)] at hk
      exact List.eq_of_mem_replicate hk
    refine .wrap hword (by omega) hvalues ?_
    rw [drop_sequenceKinds]
    exact .nip (.forgotten (.top Kind.value_le_result _))
  | some source =>
    obtain ⟨f, p₁, hf, hrest⟩ := bind_eq_ok.mp h
    obtain ⟨run, p₂, hrun, hwhole⟩ := bind_eq_ok.mp hrest
    obtain ⟨rfl, rfl⟩ := pure_eq_ok.mp hwhole
    obtain ⟨-, -, rfl, -⟩ := call_eq_ok hrun
    obtain ⟨hp, hf, -⟩ := action_eq_ok hP hf hq
    refine ⟨hp, fun hsize kinds hheight hscope => ?_⟩
    simp only [size_cons] at hsize
    have hlength := length_sequenceKinds m kinds
    have hm : (UInt32.ofNat m).toNat = m :=
      UInt32.toNat_ofNat_of_lt' (show m < UInt32.size by rw [UInt32.size]; omega)
    have hnext : Code.Typed P [op .nip] 0 (.result :: (sequenceKinds m kinds).drop m) 0
        (.result :: kinds) := by
      rw [drop_sequenceKinds]
      exact .nip .nil
    refine .loadSavedPos ?_ (typed_call hrun hf (by omega) hheight hscope (by omega) hnext)
    rw [hm, getElem?_sequenceKinds]

/-- The elements of a sequence are typed one after the other, and then what stands at its end. -/
theorem nest_typed (hes : ElementsTyped P g factsOf codes es height scope inner) {place : Nat}
    (h : nest tail place codes p = .ok (whole, q))
    (heffect : whole.effect = -(UInt32.ofNat place).toInt32) (hsize : height + whole.size < 2 ^ 32)
    (hheight : (sequenceKinds place kinds).length = height)
    (hscope : scope.Within (sequenceKinds place kinds))
    (htail : height + es.length + tail.size < 2 ^ 32 →
      inner.Within (sequenceKinds (place + es.length) kinds) →
        Code.Typed P tail 0 (sequenceKinds (place + es.length) kinds) 0 (.result :: kinds)) :
    Code.Typed P whole 0 (sequenceKinds place kinds) 0 (.result :: kinds) := by
  induction hes generalizing place whole q with
  | nil =>
    obtain ⟨rfl, rfl⟩ := pure_eq_ok.mp h
    exact htail hsize hscope
  | @cons code codes e es height scope scope' inner hfirst hafter _ ih =>
    have hcodes := effect_of_nest h heffect
    obtain ⟨nested, p₁, hnested, hrest⟩ := bind_eq_ok.mp h
    obtain ⟨test, p₂, htest, hwhole⟩ := bind_eq_ok.mp hrest
    obtain ⟨hbalance, rfl, rfl⟩ := branch_eq_ok.mp htest
    obtain ⟨rfl, rfl⟩ := pure_eq_ok.mp hwhole
    rw [effect_cleanup] at hbalance
    have hcode : code.effect = 1 := hcodes code List.mem_cons_self
    simp only [size_append, size_cons, size_nil, length_assemble_branch, List.length_nil] at hsize
    have hlength := length_sequenceKinds place kinds
    have hscope' : scope'.Within (sequenceKinds (place + 1) kinds) := by
      have hvalue := hscope.after g e
      rwa [hheight, ← hafter hcode] at hvalue
    have hnestedTyped := ih hnested hbalance (by omega)
      (by rw [length_sequenceKinds]; omega) hscope' (by
        intro htailSize hinner
        rw [Nat.add_right_comm place 1 es.length] at hinner ⊢
        exact htail (by rw [List.length_cons]; omega) hinner)
    refine (hfirst.typed hcode (by omega) _ hheight hscope).append ?_
    exact .branch .ifNotError rfl trivial hnestedTyped (typed_cleanup (by omega)) .nil

/-- A sequence keeps the offset where it began below the values of its elements. -/
theorem sequence_types {action? : Option String} {nested : Code} {p₁ : Pools} (hP : P.Addressable)
    (hes : ElementsTyped P g factsOf codes es (height + 1) scope inner)
    (htail : sequenceEnd es.length action? inner (height + 1 + es.length) p = .ok (tail, p₁))
    (h : nest tail 0 codes p₁ = .ok (nested, q)) (hq : P.Extends q) :
    Types P (op .pushCurrPos :: nested) height scope (∀ e ∈ es, factsOf e) := by
  obtain rfl := pools_nest h
  have hnested (heffect : effect (op .pushCurrPos :: nested) = 1) :
      nested.effect = -(UInt32.ofNat 0).toInt32 := by
    simp [StackEffect.plain] at heffect
    exact heffect
  refine ⟨fun heffect hsize kinds hheight hscope => ?_, fun heffect =>
    hes.allFacts (effect_of_nest h (hnested heffect))⟩
  simp only [size_cons, length_assemble_op] at hsize
  refine .pushCurrPos (nest_typed hes h (hnested heffect) (by omega)
    (by rw [length_sequenceKinds]; omega) (hscope.push .pos) ?_)
  intro htailSize hinner
  rw [Nat.zero_add] at hinner ⊢
  exact (sequenceEnd_typed hP htail hq).2 htailSize kinds (by rw [length_sequenceKinds]; omega)
    hinner

end

/-! ## Nodes -/

section

variable {g : Grammar} {f : Facts}

theorem alternatives_typed {child : NodeId → Generate Code} {factsOf : NodeId → Prop}
    (hchild : ∀ e p code q, child e p = .ok (code, q) → P.Extends q →
      P.Extends p ∧ Types P code height scope (factsOf e))
    {es : List NodeId} {codes : List Code} (h : es.mapM child p = .ok (codes, q))
    (hq : P.Extends q) :
    P.Extends p ∧ List.Forall₂ (fun code facts => Types P code height scope facts) codes
      (es.map factsOf) := by
  induction es generalizing p codes with
  | nil =>
    obtain ⟨rfl, rfl⟩ := pure_eq_ok.mp h
    exact ⟨hq, .nil⟩
  | cons e es ih =>
    rw [List.mapM_cons] at h
    obtain ⟨code, p₁, hfirst, hrest⟩ := bind_eq_ok.mp h
    obtain ⟨codes', p₂, hothers, hwhole⟩ := bind_eq_ok.mp hrest
    obtain ⟨rfl, rfl⟩ := pure_eq_ok.mp hwhole
    obtain ⟨hp₁, hothers⟩ := ih hothers
    obtain ⟨hp, hfirst⟩ := hchild _ _ _ _ hfirst hp₁
    exact ⟨hp, .cons hfirst hothers⟩

/-- What holds of all parts of a node makes it grounded. -/
theorem grounded_of {depth : Nat} {id : NodeId} {shape : Shape} (hshape : g.shape id = shape)
    (h : ∀ e ∈ shape.parts, g.Grounded depth e) : g.Grounded (depth + 1) id := by
  rw [Grammar.Grounded, hshape]
  exact h

theorem node_types (hP : P.Addressable) (hf : f.Resolves g) (hrules : g.rules.length = P.rules.size)
    {depth : Nat} {id : NodeId} {action? : Option String} {scope' : Scope}
    (h : node g f depth id height scope action? p = .ok ((code, scope'), q)) (hq : P.Extends q) :
    P.Extends p ∧ Types P code height scope (g.Grounded depth id) ∧
      ((action?.isSome → takesOver (g.shape id) = false) → code.effect = 1 →
        scope' = scope.after g id height) := by
  induction depth generalizing id height scope action? p code scope' q with
  | zero =>
    obtain ⟨heq, rfl⟩ := pure_eq_ok.mp h
    cases heq
    exact ⟨hq, ⟨fun heffect => absurd heffect (by decide), fun heffect =>
      absurd heffect (by decide)⟩, fun _ heffect => absurd heffect (by decide)⟩
  | succ depth ih =>
    have hchild (e : NodeId) (height : Nat) (scope : Scope) (p : Pools) (c : Code) (q : Pools)
        (h : ((·.1) <$> node g f depth e height scope none) p = .ok (c, q)) (hq : P.Extends q) :
        P.Extends p ∧ Types P c height scope (g.Grounded depth e) := by
      obtain ⟨⟨c', scope'⟩, hnode, rfl⟩ := map_eq_ok.mp h
      exact (ih hnode hq).imp_right And.left
    have hscope : ∀ {shape : Shape}, (∀ label e, shape ≠ .labeled (some label) e) →
        g.shape id = shape → scope = scope.after g id height := by
      intro shape hne hshape
      unfold Scope.after
      split
      · next label e hlabeled => exact absurd (hshape.symm.trans hlabeled) (hne label e)
      · rfl
    -- An expression with one part is grounded if the part is; one without parts always is.
    have hone {e : NodeId} {shape : Shape} (hshape : g.shape id = shape)
        (hparts : shape.parts = [e]) (he : g.Grounded depth e) : g.Grounded (depth + 1) id :=
      grounded_of hshape (by rw [hparts]; simpa using he)
    have hnone {shape : Shape} (hshape : g.shape id = shape) (hparts : shape.parts = []) :
        g.Grounded (depth + 1) id := grounded_of hshape (by rw [hparts]; nofun)
    rw [node, level] at h
    cases hshape : g.shape id with
    | named name e =>
      simp only [hshape] at h
      obtain ⟨expected, p₁, hexpected, hrest⟩ := bind_eq_ok.mp h
      obtain ⟨c, p₂, hc, hrest⟩ := bind_eq_ok.mp hrest
      obtain ⟨hwhole, rfl⟩ := inScope_eq_ok.mp hrest
      obtain ⟨rfl, htypes⟩ := named_types hwhole
      obtain ⟨hp₁, hx⟩ := hchild _ _ _ _ _ _ hc hq
      obtain ⟨hp, hexpected⟩ := refers_expectation hP hexpected hp₁
      exact ⟨hp, (htypes _ hexpected hx).imp (hone hshape rfl), fun _ _ => hscope (by simp) hshape⟩
    | choice alternatives =>
      simp only [hshape] at h
      obtain ⟨codes, p₁, hcodes, hrest⟩ := bind_eq_ok.mp h
      obtain ⟨hwhole, rfl⟩ := inScope_eq_ok.mp hrest
      obtain rfl := pools_choice hwhole
      obtain ⟨hp, hxs⟩ := alternatives_typed (fun e => hchild e height scope') hcodes hq
      have hall := (choice_types hwhole hxs).imp fun hfacts =>
        grounded_of hshape fun e he => hfacts _ (List.mem_map_of_mem he)
      exact ⟨hp, hall, fun _ _ => hscope (by simp) hshape⟩
    | action e source =>
      simp only [hshape] at h
      split at h
      · obtain ⟨⟨c, inner⟩, p₁, hc, hwhole⟩ := bind_eq_ok.mp h
        obtain ⟨heq, rfl⟩ := pure_eq_ok.mp hwhole
        cases heq
        obtain ⟨hp, hx, -⟩ := ih hc hq
        exact ⟨hp, hx.imp (hone hshape rfl), fun _ _ => hscope (by simp) hshape⟩
      · next htakes =>
        obtain ⟨⟨c, inner⟩, p₁, hc, hrest⟩ := bind_eq_ok.mp h
        obtain ⟨hwhole, rfl⟩ := inScope_eq_ok.mp hrest
        obtain ⟨hp₁, htypes⟩ := actionAround_types hP hwhole hq
        obtain ⟨hp, hx, hinner⟩ := ih hc hp₁
        have haround := htypes g e _ _ hx (hinner fun _ => by simpa using htakes)
        exact ⟨hp, haround.imp (hone hshape rfl), fun _ _ => hscope (by simp) hshape⟩
    | sequence es =>
      simp only [hshape] at h
      obtain ⟨⟨codes, inner⟩, p₁, hcodes, hrest⟩ := bind_eq_ok.mp h
      obtain ⟨tail, p₂, htail, hrest⟩ := bind_eq_ok.mp hrest
      obtain ⟨nested, p₃, hnested, hwhole⟩ := bind_eq_ok.mp hrest
      obtain ⟨heq, rfl⟩ := pure_eq_ok.mp hwhole
      cases heq
      obtain rfl := pools_nest hnested
      obtain ⟨hp₁, -⟩ := sequenceEnd_typed hP htail hq
      obtain ⟨hp, helements⟩ := elements_typed (fun e height scope p code scope' q hnode hq => by
        obtain ⟨hp, hx, hafter⟩ := ih hnode hq
        exact ⟨hp, hx, hafter (by simp)⟩) hcodes hp₁
      have htypes := (sequence_types hP helements htail hnested hq).imp (grounded_of hshape)
      refine ⟨hp, htypes, fun htakes _ => ?_⟩
      split
      · next hsome =>
        have hnil : es = [] := by simpa [takesOver, hshape] using htakes hsome
        subst hnil
        cases helements
        exact hscope (by simp) hshape
      · exact hscope (by simp) hshape
    | labeled label e =>
      simp only [hshape] at h
      obtain ⟨c, p₁, hc, hwhole⟩ := bind_eq_ok.mp h
      obtain ⟨heq, rfl⟩ := pure_eq_ok.mp hwhole
      cases heq
      obtain ⟨hp, hx⟩ := hchild _ _ _ _ _ _ hc hq
      refine ⟨hp, hx.imp (hone hshape rfl), fun _ _ => ?_⟩
      simp only [Scope.after, hshape]
      cases label <;> rfl
    | text e =>
      simp only [hshape] at h
      obtain ⟨c, p₁, hc, hrest⟩ := bind_eq_ok.mp h
      obtain ⟨hwhole, rfl⟩ := inScope_eq_ok.mp hrest
      obtain ⟨rfl, htypes⟩ := text_types hwhole
      obtain ⟨hp, hx⟩ := hchild _ _ _ _ _ _ hc hq
      exact ⟨hp, (htypes _ hx).imp (hone hshape rfl), fun _ _ => hscope (by simp) hshape⟩
    | simpleAnd e =>
      simp only [hshape] at h
      obtain ⟨c, p₁, hc, hrest⟩ := bind_eq_ok.mp h
      obtain ⟨hwhole, rfl⟩ := inScope_eq_ok.mp hrest
      obtain ⟨rfl, htypes⟩ := simplePredicate_types hwhole
      obtain ⟨hp, hx⟩ := hchild _ _ _ _ _ _ hc hq
      exact ⟨hp, (htypes _ hx).imp (hone hshape rfl), fun _ _ => hscope (by simp) hshape⟩
    | simpleNot e =>
      simp only [hshape] at h
      obtain ⟨c, p₁, hc, hrest⟩ := bind_eq_ok.mp h
      obtain ⟨hwhole, rfl⟩ := inScope_eq_ok.mp hrest
      obtain ⟨rfl, htypes⟩ := simplePredicate_types hwhole
      obtain ⟨hp, hx⟩ := hchild _ _ _ _ _ _ hc hq
      exact ⟨hp, (htypes _ hx).imp (hone hshape rfl), fun _ _ => hscope (by simp) hshape⟩
    | optional e =>
      simp only [hshape] at h
      obtain ⟨c, p₁, hc, hrest⟩ := bind_eq_ok.mp h
      obtain ⟨hwhole, rfl⟩ := inScope_eq_ok.mp hrest
      obtain ⟨rfl, htypes⟩ := optional_types hwhole
      obtain ⟨hp, hx⟩ := hchild _ _ _ _ _ _ hc hq
      exact ⟨hp, (htypes _ hx).imp (hone hshape rfl), fun _ _ => hscope (by simp) hshape⟩
    | zeroOrMore e =>
      simp only [hshape] at h
      obtain ⟨c, p₁, hc, hrest⟩ := bind_eq_ok.mp h
      obtain ⟨hwhole, rfl⟩ := inScope_eq_ok.mp hrest
      obtain ⟨rfl, htypes⟩ := zeroOrMore_types hwhole
      obtain ⟨hp, hx⟩ := hchild _ _ _ _ _ _ hc hq
      exact ⟨hp, (htypes _ hx).imp (hone hshape rfl), fun _ _ => hscope (by simp) hshape⟩
    | oneOrMore e =>
      simp only [hshape] at h
      obtain ⟨c, p₁, hc, hrest⟩ := bind_eq_ok.mp h
      obtain ⟨hwhole, rfl⟩ := inScope_eq_ok.mp hrest
      obtain ⟨rfl, htypes⟩ := oneOrMore_types hwhole
      obtain ⟨hp, hx⟩ := hchild _ _ _ _ _ _ hc hq
      exact ⟨hp, (htypes _ hx).imp (hone hshape rfl), fun _ _ => hscope (by simp) hshape⟩
    | range min max e delimiter =>
      simp only [hshape] at h
      split at h
      · next hempty =>
        obtain ⟨heq, rfl⟩ := pure_eq_ok.mp h
        cases heq
        have hparts : (Shape.range min max e delimiter).parts = [] := if_pos hempty
        refine ⟨hq, ⟨fun _ _ kinds _ _ => ?_, fun _ => hnone hshape hparts⟩,
          fun _ _ => hscope (by simp) hshape⟩
        exact .pushEmptyArray (.forgotten (.top Kind.array_le_result kinds))
      · next hsome =>
        have hparts : (Shape.range min max e delimiter).parts = e :: delimiter.toList :=
          if_neg hsome
        generalize hbase : (if 0 < min then height + 1 else height) = base at h
        obtain ⟨first, p₁, hfirst, hrest⟩ := bind_eq_ok.mp h
        cases delimiter with
        | none =>
          obtain ⟨hwhole, rfl⟩ := inScope_eq_ok.mp hrest
          obtain ⟨rfl, htypes⟩ := range_types hbase hwhole
          obtain ⟨hp, hx⟩ := hchild _ _ _ _ _ _ hfirst hq
          have hrange := (htypes _ _ hx hx).imp fun hfacts => hone hshape hparts hfacts.1
          exact ⟨hp, hrange, fun _ _ => hscope (by simp) hshape⟩
        | some d =>
          obtain ⟨between, p₂, hbetween, hrest⟩ := bind_eq_ok.mp hrest
          obtain ⟨again, p₃, hagain, hrest⟩ := bind_eq_ok.mp hrest
          obtain ⟨further, p₄, hfurther, hrest⟩ := bind_eq_ok.mp hrest
          obtain ⟨hwhole, rfl⟩ := inScope_eq_ok.mp hrest
          obtain ⟨rfl, htypes⟩ := range_types hbase hwhole
          obtain ⟨rfl, hfurther⟩ := delimited_types hfurther
          obtain ⟨hp₂, hagain⟩ := hchild _ _ _ _ _ _ hagain hq
          obtain ⟨hp₁, hbetween⟩ := hchild _ _ _ _ _ _ hbetween hp₂
          obtain ⟨hp, hx⟩ := hchild _ _ _ _ _ _ hfirst hp₁
          have hrange := (htypes _ _ hx (hfurther _ _ hbetween hagain)).imp fun hfacts =>
            grounded_of hshape (by rw [hparts]; simpa using ⟨hfacts.1, hfacts.2.1⟩)
          exact ⟨hp, hrange, fun _ _ => hscope (by simp) hshape⟩
    | semanticAnd source =>
      simp only [hshape] at h
      obtain ⟨hwhole, rfl⟩ := inScope_eq_ok.mp h
      obtain ⟨hp, htypes⟩ := semanticPredicate_types hP hwhole hq
      exact ⟨hp, htypes.imp fun _ => hnone hshape rfl, fun _ _ => hscope (by simp) hshape⟩
    | semanticNot source =>
      simp only [hshape] at h
      obtain ⟨hwhole, rfl⟩ := inScope_eq_ok.mp h
      obtain ⟨hp, htypes⟩ := semanticPredicate_types hP hwhole hq
      exact ⟨hp, htypes.imp fun _ => hnone hshape rfl, fun _ _ => hscope (by simp) hshape⟩
    | ruleRef name =>
      simp only [hshape] at h
      cases htarget : f.target? id with
      | none =>
        rw [htarget] at h
        cases h
      | some rule =>
        rw [htarget] at h
        obtain ⟨heq, rfl⟩ := pure_eq_ok.mp h
        cases heq
        have hindex := hf id name rule hshape htarget
        have hlt : rule < P.rules.size := by
          rw [Grammar.ruleIndex?, List.findIdx?_eq_some_iff_getElem] at hindex
          exact hrules ▸ hindex.choose
        have hword : (UInt32.ofNat rule).toNat = rule :=
          UInt32.toNat_ofNat_of_lt' (Nat.lt_of_lt_of_le hlt hP.rules)
        refine ⟨hq, ⟨fun _ _ kinds _ _ => .rule (by rw [hword]; exact hlt) .nil,
          fun _ => hnone hshape rfl⟩, fun _ _ => hscope (by simp) hshape⟩
    | literal value ignoreCase =>
      simp only [hshape] at h
      obtain ⟨hwhole, rfl⟩ := inScope_eq_ok.mp h
      obtain ⟨hp, htypes⟩ := literal_types hP hwhole hq
      exact ⟨hp, htypes.imp fun _ => hnone hshape rfl, fun _ _ => hscope (by simp) hshape⟩
    | charClass parts inverted ignoreCase raw =>
      simp only [hshape] at h
      obtain ⟨hwhole, rfl⟩ := inScope_eq_ok.mp h
      obtain ⟨hp, htypes⟩ := charClass_types hP hwhole hq
      exact ⟨hp, htypes.imp fun _ => hnone hshape rfl, fun _ _ => hscope (by simp) hshape⟩
    | regex value ignoreCase multiLine raw =>
      simp only [hshape] at h
      obtain ⟨hwhole, rfl⟩ := inScope_eq_ok.mp h
      obtain ⟨hp, htypes⟩ := regex_types hP hwhole hq
      exact ⟨hp, htypes.imp fun _ => hnone hshape rfl, fun _ _ => hscope (by simp) hshape⟩
    | any =>
      simp only [hshape] at h
      obtain ⟨e, p₁, he, hrest⟩ := bind_eq_ok.mp h
      obtain ⟨hwhole, rfl⟩ := inScope_eq_ok.mp hrest
      obtain ⟨rfl, rfl⟩ := terminal_eq_ok hwhole
      obtain ⟨hp, he⟩ := refers_expectation hP he hq
      exact ⟨hp, ⟨fun _ _ kinds _ _ => typed_terminal .matchAny rfl trivial (typed_acceptN _) he,
        fun _ => hnone hshape rfl⟩, fun _ _ => hscope (by simp) hshape⟩
    | epsilon =>
      simp only [hshape] at h
      obtain ⟨c, p₁, hc, hwhole⟩ := bind_eq_ok.mp h
      obtain ⟨heq, rfl⟩ := pure_eq_ok.mp hwhole
      cases heq
      obtain ⟨hp, hc⟩ := refers_string hP hc hq
      exact ⟨hp, ⟨fun _ _ kinds _ _ => .push hc (.forgotten (.top Kind.value_le_result kinds)),
        fun _ => hnone hshape rfl⟩, fun _ _ => hscope (by simp) hshape⟩
    | code source =>
      simp only [hshape] at h
      obtain ⟨hwhole, rfl⟩ := inScope_eq_ok.mp h
      obtain ⟨hp, htypes⟩ := codeTerminal_types hP hwhole hq
      exact ⟨hp, htypes.imp fun _ => hnone hshape rfl, fun _ _ => hscope (by simp) hshape⟩

/-! ## Rules -/

/-- The code of a rule makes one result out of nothing, and the expression of the rule is
grounded. -/
structure RuleTyped (P : Program) (g : Grammar) (code : Code) (r : Rule) : Prop where
  effect : code.effect = 1
  grounded : g.Grounded g.depthBound r.expression
  typed : code.size < 2 ^ 32 → code.Typed P 0 [] 0 [.result]

theorem rule_typed (hP : P.Addressable) (hf : f.Resolves g)
    (hrules : g.rules.length = P.rules.size) {r : Rule} (h : rule g f r p = .ok (code, q))
    (hq : P.Extends q) : P.Extends p ∧ RuleTyped P g code r := by
  obtain ⟨⟨c, scope⟩, p₁, hnode, hrest⟩ := bind_eq_ok.mp h
  dsimp only at hrest
  split at hrest
  · next heffect =>
    obtain ⟨rfl, rfl⟩ := pure_eq_ok.mp hrest
    obtain ⟨hp, htypes, -⟩ := node_types hP hf hrules hnode hq
    refine ⟨hp, heffect, htypes.facts heffect, fun hsize => ?_⟩
    exact htypes.typed heffect (by omega) [] rfl .nil
  · cases hrest

theorem rules_typed (hP : P.Addressable) (hf : f.Resolves g)
    (hrules : g.rules.length = P.rules.size) {rs : List Rule} {codes : List Code}
    (h : rs.mapM (rule g f) p = .ok (codes, q)) (hq : P.Extends q) :
    P.Extends p ∧ List.Forall₂ (RuleTyped P g) codes rs := by
  induction rs generalizing p codes with
  | nil =>
    obtain ⟨rfl, rfl⟩ := pure_eq_ok.mp h
    exact ⟨hq, .nil⟩
  | cons r rs ih =>
    rw [List.mapM_cons] at h
    obtain ⟨code, p₁, hfirst, hrest⟩ := bind_eq_ok.mp h
    obtain ⟨codes', p₂, hothers, hwhole⟩ := bind_eq_ok.mp hrest
    obtain ⟨rfl, rfl⟩ := pure_eq_ok.mp hwhole
    obtain ⟨hp₁, hothers⟩ := ih hothers
    obtain ⟨hp, hfirst⟩ := rule_typed hP hf hrules hfirst hp₁
    exact ⟨hp, .cons hfirst hothers⟩

end

end Generate

/-- The code of a program that carries what was generated is typed. -/
theorem Program.Carries.rules_typed {g : Grammar} {f : Facts} {c : Generated} (hc : P.Carries c)
    (hg : f.generate g = .ok c) (hf : f.Resolves g) (hP : P.Addressable) :
    List.Forall₂ (Generate.RuleTyped P g) c.code g.rules := by
  have hgen := Facts.generate_eq_ok hg
  have hrules : g.rules.length = P.rules.size := by
    have hlength := congrArg List.length hc.code
    rw [List.length_map, List.length_map, Generate.length_of_rules hgen] at hlength
    exact hlength.symm
  exact (Generate.rules_typed hP hf hrules hgen
    ⟨fun i _ => by rw [hc.constants], fun i _ => by rw [hc.actions]⟩).2

end PegMachine
