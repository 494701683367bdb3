import PegMachine.Proofs.Points
import PegMachine.Proofs.Trees

/-!
# Rules of two grammars

Two grammars may keep the same rule at different places, and their references may name different
rules. A rule is evaluated alike in both of them if the nodes of its expression are the same but
for what references name, and what references name is evaluated alike. Rules are known by their
names here, as their indices differ.
-/

namespace PegMachine

open Filter

/-- The same parse with rules that have the names that they have in a grammar. -/
def Setting.within {σ : Type} (E : Setting σ) (g : Grammar) : Setting σ where
  program := { E.program with rules := (g.rules.map fun r => ⟨r.name, false, #[]⟩).toArray }
  patterns := E.patterns
  patterns_eq := E.patterns_eq
  input := E.input
  handler := E.handler

theorem Setting.ruleName_within {σ : Type} (E : Setting σ) (g : Grammar) (index : Nat) :
    (E.within g).program.ruleName index = ((g.rules[index]?).map (·.name)).getD "" := by
  simp only [Program.ruleName, within, List.getElem?_toArray, List.getElem?_map]
  cases g.rules[index]? <;> rfl

/-- A rule is an expression, perhaps under a label. -/
def Grammar.Stems (g : Grammar) (index : Nat) (root : NodeId) : Prop :=
  ∃ r, g.rules[index]? = some r ∧
    (r.expression = root ∨ ∃ label, g.shape r.expression = .labeled label root)

namespace Peg

variable {σ : Type} (E : Setting σ)

/-- A parse that starts with the rule of a name at a point comes to an outcome and a point: the
value or the error that ends it, the offset, the reports, and the state that the calls of actions
left the handler in. -/
def Evaluates (g : Grammar) (name : String) (t : Point σ) (o : Outcome Slot) (u : Point σ) : Prop :=
  ∃ index n, g.ruleIndex? name = some index ∧ pointRule (E.within g) g n index t = some (o, u)

/-! ## Points -/

/-- Points are the same but for the index of the rule that is being run. -/
structure Namesakes (g g' : Grammar) (t u : Point σ) : Prop where
  pos : t.pos = u.pos
  rule : t.rule.elim "" (E.within g).program.ruleName =
    u.rule.elim "" (E.within g').program.ruleName
  reports : t.reports = u.reports
  handlerState : t.handlerState = u.handlerState

/-- The relation of points that are the same but for the index of a rule. -/
def namesakes (g g' : Grammar) : Relation Unit (Point σ) (Point σ) :=
  ⟨fun _ => Namesakes E g g', fun _ => Namesakes E g g'⟩

variable {E} {g g' : Grammar}

theorem Namesakes.after {t u : Point σ} {o : Outcome Slot} {w : Unit} :
    (namesakes E g g').after w o t u ↔ Namesakes E g g' t u := by
  cases o <;> rfl

theorem Namesakes.call {t u : Point σ} (h : Namesakes E g g' t u) (a : Program.Action) (start : Nat)
    (args : List Value) :
    (t.call (E.within g) a start args).1 = (u.call (E.within g') a start args).1 ∧
      Namesakes E g g' (t.call (E.within g) a start args).2
        (u.call (E.within g') a start args).2 := by
  have hcontext : t.context (E.within g) start = u.context (E.within g') start := by
    simp only [Point.context, h.pos, h.rule]
    rfl
  rcases hrun : E.handler (actionIndex E.program a) a (u.context (E.within g') start) args
    u.handlerState with ⟨answer, hs⟩
  have hrun₁ : (E.within g).handler (actionIndex (E.within g).program a) a
      (u.context (E.within g') start) args t.handlerState = (answer, hs) := by
    rw [h.handlerState]
    exact hrun
  have hrun₂ : (E.within g').handler (actionIndex (E.within g').program a) a
      (u.context (E.within g') start) args u.handlerState = (answer, hs) := hrun
  simp only [Point.call, hcontext, hrun₁, hrun₂]
  rcases answer with (- | description | message | -) | value
  · exact ⟨rfl, rfl, h.rule, h.reports, rfl⟩
  all_goals exact ⟨rfl, h.pos, h.rule, h.reports, rfl⟩

theorem linked_within : Linked (points (E.within g)) (points (E.within g')) (namesakes E g g') where
  pos_eq h := h.pos
  after_goTo p h := ⟨rfl, h.rule, h.reports, h.handlerState⟩
  after_fail e h := ⟨h.pos, h.rule, congrArg₂ (fun p L => (p, e) :: L) h.pos h.reports,
    h.handlerState⟩
  after_discard h := h
  after_hush {w t u} h := ⟨w, h, fun o t' u' h' => by
    rw [Namesakes.after] at h' ⊢
    exact ⟨h'.pos, h'.rule, h.reports, h'.handlerState⟩⟩
  after_call a p args h := by
    obtain ⟨ho, hafter⟩ := h.call a p args
    exact ⟨ho, Namesakes.after.mpr hafter⟩

/-! ## Expressions -/

variable {call : String → String → Prop}

/-- Trees of the same expressions are evaluated alike if the rules that are referred to are. -/
theorem Linked.evalWithin {S T W : Type} {O : Ops S} {P : Ops T} {R : Relation W S T}
    (h : Linked O P R) {input : Input} {invoke : Nat → Run S Slot}
    {invoke' : Nat → Nat → Run T Slot}
    (hcall : ∀ name name', call name name' → ∀ w,
      Refines R w (called g invoke name) fun n => called g' (invoke' n) name')
    (rounds : Nat) {depth depth' : Nat} {id : NodeId} (hin : g.Within depth id)
    (hin' : g'.Within depth' id)
    (hshapes : ∀ x, g.Below id x → (g.shape x).Renames call (g'.shape x)) (env : Env)
    (action? : Option String) (w : W) :
    Refines R w (Peg.eval O input g invoke rounds depth id env action?) fun n =>
      Peg.eval P input g' (invoke' n) n depth' id env action? := by
  induction depth generalizing depth' id env action? w with
  | zero => exact hin.elim
  | succ depth ih =>
    obtain ⟨depth', rfl⟩ := hin'.exists_succ
    have hchildren : g'.children id = g.children id := (hshapes id .refl).children_eq
    refine h.levelBetween (hshapes id .refl) (fun e he => hshapes e (.single he)) hcall
      (fun e he env action? w => ?_) rounds env action? w
    exact ih (hin.2 e he) (hin'.2 e (hchildren ▸ he)) (fun x hx => hshapes x (hx.head he)) env
      action? w

/-! ## Rules -/

/-- A label on the root of a rule does not matter. -/
theorem body_eq {index : Nat} {root : NodeId} (h : g.Stems index root) (htrees : g.HasTrees) :
    ∃ depth, g.Within depth root ∧ ∀ (E : Setting σ) (invoke : Nat → Run (Point σ) Slot)
      (rounds : Nat), body (points E) E.input g invoke rounds index =
        eval (points E) E.input g invoke rounds depth root [] none := by
  obtain ⟨r, hr, hroot⟩ := h
  have hin : g.Within g.depthBound r.expression := (htrees r (List.mem_of_getElem? hr)).within
  rcases hroot with rfl | ⟨label, hshape⟩
  · refine ⟨g.depthBound, hin, fun E invoke rounds => ?_⟩
    simp only [body, hr]
  · have hchild : root ∈ g.children r.expression := by
      rw [Grammar.children, hshape]
      exact List.mem_singleton_self root
    refine ⟨g.nodes.size, hin.2 root hchild, fun E invoke rounds => ?_⟩
    simp only [body, hr, Grammar.depthBound, eval, level, hshape]

/-- Two rules have the same expression but for what references name and for labels on their
roots. -/
def SameBody (call : String → String → Prop) (g g' : Grammar) (i i' : Nat) : Prop :=
  ∃ root, g.Stems i root ∧ g'.Stems i' root ∧
    ∀ x, g.Below root x → (g.shape x).Renames call (g'.shape x)

/-- Rules of one grammar are found in another one: they have the same expressions but for what
references name, and they have the same names. -/
structure Counterparts (g g' : Grammar) (pair : Nat → Nat → Prop) (call : String → String → Prop) :
    Prop where
  trees : g.HasTrees
  trees' : g'.HasTrees
  name : ∀ {i i'}, pair i i' → (g.rules[i]?).map (·.name) = (g'.rules[i']?).map (·.name)
  body : ∀ {i i'}, pair i i' → SameBody call g g' i i'

/-- With so much fuel, a rule ends in one grammar as its counterpart ends in the other one. -/
def Follows (E : Setting σ) (g g' : Grammar) (pair : Nat → Nat → Prop) (n : Nat) : Prop :=
  ∀ i i', pair i i' → ∀ w, Refines (namesakes E g g') w (pointRule (E.within g) g n i) fun m =>
    pointRule (E.within g') g' m i'

/-- References in two grammars are evaluated alike if rules that correspond are. -/
def Answers (E : Setting σ) (g g' : Grammar) (pair : Nat → Nat → Prop)
    (call : String → String → Prop) : Prop :=
  ∀ n, Follows E g g' pair n → ∀ name name', call name name' → ∀ w,
    Refines (namesakes E g g') w (called g (pointRule (E.within g) g n) name) fun m =>
      called g' (pointRule (E.within g') g' m) name'

namespace Counterparts

variable {pair : Nat → Nat → Prop}

/-- The nodes below are the same in the other grammar. -/
theorem below_of_renames {root x : NodeId}
    (h : ∀ x, g.Below root x → (g.shape x).Renames call (g'.shape x)) (hx : g'.Below root x) :
    g.Below root x := by
  induction hx with
  | refl => exact .refl
  | @tail y e _ he ih =>
    rw [Grammar.children, (h y ih).children_eq] at he
    exact ih.tail he

theorem symm (h : Counterparts g g' pair call) :
    Counterparts g' g (fun i' i => pair i i') (fun name' name => call name name') where
  trees := h.trees'
  trees' := h.trees
  name hpair := (h.name hpair).symm
  body hpair := by
    obtain ⟨root, hroot, hroot', hshapes⟩ := h.body hpair
    exact ⟨root, hroot', hroot, fun x hx => (hshapes x (below_of_renames hshapes hx)).symm⟩

/-- Rules are evaluated alike in both grammars if references to them are. -/
theorem follows (h : Counterparts g g' pair call) (hcall : Answers E g g' pair call) (n : Nat) :
    Follows E g g' pair n := by
  induction n with
  | zero => exact fun i i' _ w => .forever
  | succ n ih =>
    intro i i' hpair w t u htu o t' hrun
    obtain ⟨t₁, hbody, rfl⟩ := pointRule_eq_some.mp hrun
    obtain ⟨root, hroot, hroot', hshapes⟩ := h.body hpair
    obtain ⟨depth, hin, heval⟩ := body_eq (σ := σ) hroot h.trees
    obtain ⟨depth', hin', heval'⟩ := body_eq (σ := σ) hroot' h.trees'
    have hinside : Namesakes E g g' { t with rule := some i } { u with rule := some i' } := by
      refine ⟨htu.pos, ?_, htu.reports, htu.handlerState⟩
      simp only [Option.elim_some, Setting.ruleName_within, h.name hpair]
    rw [heval] at hbody
    obtain ⟨u₁, hu₁, hafter⟩ := linked_within.evalWithin (hcall n ih) n
      hin hin' hshapes [] none w _ _ hinside _ _ hbody
    rw [Namesakes.after] at hafter
    refine ⟨{ u₁ with rule := u.rule }, eventually_pointRule ?_,
      Namesakes.after.mpr ⟨hafter.pos, htu.rule, hafter.reports, hafter.handlerState⟩⟩
    filter_upwards [hu₁] with m hm
    rw [heval']
    exact hm

end Counterparts

/-- A rule leaves the rule that is being run as it was. -/
theorem rule_of_pointRule {n index : Nat} {t u : Point σ} {o : Outcome Slot}
    (h : pointRule E g n index t = some (o, u)) : u.rule = t.rule := by
  cases n with
  | zero => cases h
  | succ n =>
    obtain ⟨u', -, hu⟩ := pointRule_eq_some.mp h
    have hrule := congrArg Point.rule hu
    exact hrule

/-- What a rule comes to its counterpart comes to. -/
theorem Evaluates.of_follows {pair : Nat → Nat → Prop}
    (h : ∀ n, Follows E g g' pair n) {name name' : String} {i i' : Nat}
    (hi : g.ruleIndex? name = some i) (hi' : g'.ruleIndex? name' = some i') (hpair : pair i i')
    {t u : Point σ} (ht : t.rule = none) {o : Outcome Slot} (hrun : Evaluates E g name t o u) :
    Evaluates E g' name' t o u := by
  obtain ⟨_, n, hindex, hn⟩ := hrun
  rw [hi] at hindex
  cases hindex
  have hstart : Namesakes E g g' t t := ⟨rfl, by rw [ht]; rfl, rfl, rfl⟩
  obtain ⟨u', hu', hafter⟩ := h n i i' hpair () t t hstart o u hn
  obtain ⟨m, hm⟩ := hu'.exists
  rw [Namesakes.after] at hafter
  have hsame : u = u' := by
    have hrule : u.rule = u'.rule := (rule_of_pointRule hn).trans (rule_of_pointRule hm).symm
    obtain ⟨pos, rule, reports, hs⟩ := u
    obtain ⟨pos', rule', reports', hs'⟩ := u'
    simp only [Point.mk.injEq]
    exact ⟨hafter.pos, hrule, hafter.reports, hafter.handlerState⟩
  exact ⟨i', m, hi', hsame ▸ hm⟩

end Peg

end PegMachine
