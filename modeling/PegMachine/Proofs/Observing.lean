import PegMachine.Proofs.Parses

/-!
# Observed evaluation

A parse can be observed: beside its state goes a list of notes, and each time that the evaluation of
a node or the invocation of a rule comes to a result, an observer, who knows the notes made so far,
says what is to be noted of it. Notes are never taken back, also where a match is given up
afterwards. Observing changes nothing in the parse, whatever is noted.
-/

namespace PegMachine

/-- What can be matched. -/
inductive Subject
  | node (id : NodeId)
  | rule (index : Nat)
deriving Repr, DecidableEq

namespace Peg

open Filter Peg.Language

variable {S σ N : Type}

/-- What is noted when a subject, evaluated from some state on, has come to a result in another, given
the notes that there were in both. -/
abbrev Observer (S N : Type) := Subject → S × List N → Slot → S × List N → List N

/-- A recognizer that leaves the notes beside its states alone. -/
def Ops.observed (O : Ops S) (N : Type) : Ops (S × List N) where
  pos s := O.pos s.1
  goTo p s := (O.goTo p s.1, s.2)
  fail e s := (O.fail e s.1, s.2)
  discard s := (O.discard s.1, s.2)
  hush s := (O.hush s.1, s.2)
  unhush s o t := (O.unhush s.1 o t.1, t.2)
  call a start args s :=
    let (o, t) := O.call a start args s.1
    (o, t, s.2)

/-- The state after an evaluation, with what is noted of its result if it has one. -/
def observed (w : Observer S N) (subject : Subject) (s : S × List N) (o : Outcome Slot)
    (t : S × List N) : S × List N :=
  match o with
  | .ok v => (t.1, w subject s v t ++ t.2)
  | .error _ => t

/-- Note the result of an evaluation. -/
def observing (w : Observer S N) (subject : Subject) (x : Run (S × List N) Slot) :
    Run (S × List N) Slot := fun s =>
  match x s with
  | some (o, t) => some (o, observed w subject s o t)
  | none => none

/-- Evaluate a node and note all results. -/
def evalObserving (O : Ops S) (w : Observer S N) (input : Input) (g : Grammar)
    (invoke : Nat → Run (S × List N) Slot) (rounds : Nat) :
    Nat → NodeId → Env → Option String → Run (S × List N) Slot
  | 0, _, _, _ => .forever
  | depth + 1, id, env, action? => observing w (.node id)
      (level (O.observed N) input g invoke rounds
        (evalObserving O w input g invoke rounds depth) id env action?)

/-- Evaluate the expression of a rule and note all results. -/
def bodyObserving (O : Ops S) (w : Observer S N) (input : Input) (g : Grammar)
    (invoke : Nat → Run (S × List N) Slot) (rounds index : Nat) : Run (S × List N) Slot :=
  match g.rules[index]? with
  | some r => evalObserving O w input g invoke rounds g.depthBound r.expression [] none
  | none => pure .failed

/-- Invoke a rule with a body that makes notes. Nothing is evaluated anew where an outcome is
recalled. -/
def observedRule (E : Setting σ) (index : Nat) (body : Run (State σ × List N) Slot) :
    Run (State σ × List N) Slot := fun s =>
  let entry := s.1.entered E index
  match entry.memoized? E index with
  | some (nextPos, result) =>
    some (.ok result, entry.recalled E index s.1.pos nextPos result, s.2)
  | none =>
    match body ({ entry with currentRule := some index }, s.2) with
    | some (o, t) => some (o, State.left E s.1 index o t.1, t.2)
    | none => none

/-- Invoke a rule and note all results, for as long as the fuel lasts. The invocation itself is noted
also if its outcome was recalled. -/
def ruleObserving (E : Setting σ) (w : Observer (State σ) N) (g : Grammar) :
    Nat → Nat → Run (State σ × List N) Slot
  | 0, _ => .forever
  | fuel + 1, index => observing w (.rule index) (observedRule E index
      (bodyObserving (machine E) w E.input g (ruleObserving E w g fuel) fuel index))

/-! ## Observing changes nothing -/

/-- A state that is observed. -/
def besides : Relation Unit S (S × List N) where
  states _ s t := t.1 = s
  ends _ s t := t.1 = s

theorem after_besides {α : Type} {u : Unit} {o : Outcome α} {s : S} {t : S × List N} :
    besides.after u o s t ↔ t.1 = s := by
  cases o <;> rfl

theorem linked_observed (O : Ops S) : Linked O (O.observed N) besides where
  pos_eq := by
    rintro u s t rfl
    rfl
  after_goTo := by
    rintro u s t p rfl
    rfl
  after_fail := by
    rintro u s t e rfl
    rfl
  after_discard := by
    rintro u s t rfl
    rfl
  after_hush := by
    rintro u s t rfl
    refine ⟨u, rfl, fun o s' t' h => ?_⟩
    rw [after_besides] at h ⊢
    exact congrArg (O.unhush t.1 o) h
  after_call := by
    rintro u s t a p args rfl
    exact ⟨rfl, after_besides.mpr rfl⟩

section

variable {w : Observer S N} {subject : Subject} {s t : S × List N} {o : Outcome Slot} {u : Unit}

theorem fst_observed : (observed w subject s o t).1 = t.1 := by cases o <;> rfl

theorem observing_eq_some {x : Run (S × List N) Slot} {r : S × List N} :
    observing w subject x s = some (o, r) ↔
      ∃ t, x s = some (o, t) ∧ r = observed w subject s o t := by
  rw [observing]
  cases x s with
  | none => simp
  | some end' =>
    obtain ⟨o', t⟩ := end'
    simp only [Option.some.injEq, Prod.mk.injEq]
    constructor
    · rintro ⟨rfl, rfl⟩
      exact ⟨t, ⟨rfl, rfl⟩, rfl⟩
    · rintro ⟨t', ⟨rfl, rfl⟩, rfl⟩
      exact ⟨rfl, rfl⟩

theorem Refines.observing {x : Run S Slot} {y : Nat → Run (S × List N) Slot}
    (h : Refines besides u x y) : Refines besides u x fun n => Peg.observing w subject (y n) := by
  intro s t hst o s' hx
  obtain ⟨t', hy, ht'⟩ := h s t hst o s' hx
  refine ⟨observed w subject t o t', ?_, ?_⟩
  · filter_upwards [hy] with n hn
    exact observing_eq_some.mpr ⟨t', hn, rfl⟩
  · rw [after_besides] at ht' ⊢
    rw [fst_observed, ht']

theorem Refines.of_observing {x : Run (S × List N) Slot} {y : Nat → Run S Slot}
    (h : Refines besides.symm u x y) :
    Refines besides.symm u (Peg.observing w subject x) y := by
  intro s t hst o s' hx
  obtain ⟨r, hr, rfl⟩ := observing_eq_some.mp hx
  obtain ⟨t', hy, ht'⟩ := h s t hst o r hr
  refine ⟨t', hy, ?_⟩
  rw [Relation.after_symm, after_besides] at ht' ⊢
  rw [fst_observed, ht']

end

section

variable {O : Ops S} {w : Observer S N} {input : Input} {g : Grammar}

theorem refines_evalObserving {invoke : Nat → Run S Slot}
    {invoke' : Nat → Nat → Run (S × List N) Slot}
    (hinvoke : ∀ u index, Refines besides u (invoke index) fun n => invoke' n index)
    (rounds depth : Nat) (id : NodeId) (env : Env) (action? : Option String) (u : Unit) :
    Refines besides u (eval O input g invoke rounds depth id env action?) fun n =>
      evalObserving O w input g (invoke' n) n depth id env action? := by
  induction depth generalizing id env action? u with
  | zero => exact .forever
  | succ depth ih => exact ((linked_observed O).level hinvoke ih rounds id env action? u).observing

theorem refines_bodyObserving {invoke : Nat → Run S Slot}
    {invoke' : Nat → Nat → Run (S × List N) Slot}
    (hinvoke : ∀ u index, Refines besides u (invoke index) fun n => invoke' n index)
    (rounds index : Nat) (u : Unit) :
    Refines besides u (body O input g invoke rounds index) fun n =>
      bodyObserving O w input g (invoke' n) n index := by
  simp only [body, bodyObserving]
  cases g.rules[index]? with
  | none => exact .pure _
  | some r => exact refines_evalObserving hinvoke rounds g.depthBound r.expression [] none u

theorem evalObserving_refines {invoke : Nat → Run (S × List N) Slot}
    {invoke' : Nat → Nat → Run S Slot}
    (hinvoke : ∀ u index, Refines besides.symm u (invoke index) fun n => invoke' n index)
    (rounds depth : Nat) (id : NodeId) (env : Env) (action? : Option String) (u : Unit) :
    Refines besides.symm u (evalObserving O w input g invoke rounds depth id env action?) fun n =>
      eval O input g (invoke' n) n depth id env action? := by
  induction depth generalizing id env action? u with
  | zero => exact .forever
  | succ depth ih =>
    exact ((linked_observed O).symm.level hinvoke ih rounds id env action? u).of_observing

theorem bodyObserving_refines {invoke : Nat → Run (S × List N) Slot}
    {invoke' : Nat → Nat → Run S Slot}
    (hinvoke : ∀ u index, Refines besides.symm u (invoke index) fun n => invoke' n index)
    (rounds index : Nat) (u : Unit) :
    Refines besides.symm u (bodyObserving O w input g invoke rounds index) fun n =>
      body O input g (invoke' n) n index := by
  simp only [body, bodyObserving]
  cases g.rules[index]? with
  | none => exact .pure _
  | some r => exact evalObserving_refines hinvoke rounds g.depthBound r.expression [] none u

end

section

variable {E : Setting σ} {w : Observer (State σ) N} {g : Grammar}

/-- What became of an observed invocation was recalled, or it became of its body. -/
theorem observedRule_eq_some {index : Nat} {x : Run (State σ × List N) Slot}
    {s r : State σ × List N} {o : Outcome Slot} :
    observedRule E index x s = some (o, r) ↔
      (∃ nextPos result, (s.1.entered E index).memoized? E index = some (nextPos, result) ∧
        o = .ok result ∧
        r = ((s.1.entered E index).recalled E index s.1.pos nextPos result, s.2)) ∨
      ((s.1.entered E index).memoized? E index = none ∧
        ∃ t, x ({ s.1.entered E index with currentRule := some index }, s.2) = some (o, t) ∧
          r = (State.left E s.1 index o t.1, t.2)) := by
  rw [observedRule]
  cases hmemo : (s.1.entered E index).memoized? E index with
  | some hit =>
    obtain ⟨nextPos, result⟩ := hit
    simp [eq_comm]
  | none =>
    dsimp only
    cases x ({ s.1.entered E index with currentRule := some index }, s.2) with
    | none => simp
    | some end' =>
      obtain ⟨o', t⟩ := end'
      simp only [Option.some.injEq, Prod.mk.injEq]
      constructor
      · rintro ⟨rfl, rfl⟩
        exact .inr ⟨trivial, t, ⟨rfl, rfl⟩, rfl⟩
      · rintro (⟨nextPos, result, hhit, -⟩ | ⟨-, t', ⟨rfl, rfl⟩, rfl⟩)
        · cases hhit
        · exact ⟨rfl, rfl⟩

theorem refines_observedRule {x : Run (State σ) Slot} {y : Nat → Run (State σ × List N) Slot}
    {u : Unit} (h : Refines besides u x y) (index : Nat) :
    Refines besides u (State.rule E index x) fun n => observedRule E index (y n) := by
  rintro _ s rfl o s' hrun
  rcases State.rule_eq_some.mp hrun with ⟨p, result, hhit, hend⟩ | ⟨hmiss, o', t, hbody, hend⟩
  · cases hend
    refine ⟨_, .of_forall fun _ => observedRule_eq_some.mpr (.inl ⟨p, result, hhit, rfl, rfl⟩), rfl⟩
  · cases hend
    obtain ⟨t', hy, ht⟩ := h _ ({ s.1.entered E index with currentRule := some index }, s.2) rfl
      _ _ hbody
    refine ⟨(State.left E s.1 index o t'.1, t'.2), ?_, ?_⟩
    · filter_upwards [hy] with n hn
      exact observedRule_eq_some.mpr (.inr ⟨hmiss, t', hn, rfl⟩)
    · rw [after_besides] at ht ⊢
      rw [ht]

theorem observedRule_refines {x : Run (State σ × List N) Slot} {y : Nat → Run (State σ) Slot}
    {u : Unit} (h : Refines besides.symm u x y) (index : Nat) :
    Refines besides.symm u (observedRule E index x) fun n => State.rule E index (y n) := by
  rintro s _ rfl o s' hrun
  rcases observedRule_eq_some.mp hrun with ⟨p, result, hhit, rfl, rfl⟩ | ⟨hmiss, t, hbody, rfl⟩
  · exact ⟨_, .of_forall fun _ => State.rule_eq_some.mpr (.inl ⟨p, result, hhit, rfl⟩), rfl⟩
  · obtain ⟨t', hy, ht⟩ := h _ _ rfl _ _ hbody
    refine ⟨State.left E s.1 index o t', ?_, ?_⟩
    · filter_upwards [hy] with n hn
      exact State.rule_eq_some.mpr (.inr ⟨hmiss, o, t', hn, rfl⟩)
    · rw [Relation.after_symm, after_besides] at ht ⊢
      rw [ht]

theorem refines_ruleObserving (n index : Nat) (u : Unit) :
    Refines besides u (machineRule E g n index) fun m => ruleObserving E w g m index := by
  induction n generalizing index u with
  | zero => exact .forever
  | succ n ih =>
    have hbody : Refines besides u (body (machine E) E.input g (machineRule E g n) n index)
        fun m => bodyObserving (machine E) w E.input g (ruleObserving E w g m) m index :=
      refines_bodyObserving (fun u index => ih index u) n index u
    intro s t hst o s' hrun
    obtain ⟨t', hy, ht'⟩ := (refines_observedRule hbody index).observing s t hst o s' hrun
    exact ⟨t', eventually_of_succ hy, ht'⟩

theorem ruleObserving_refines (n index : Nat) (u : Unit) :
    Refines besides.symm u (ruleObserving E w g n index) fun m => machineRule E g m index := by
  induction n generalizing index u with
  | zero => exact .forever
  | succ n ih =>
    have hbody : Refines besides.symm u
        (bodyObserving (machine E) w E.input g (ruleObserving E w g n) n index)
        fun m => body (machine E) E.input g (machineRule E g m) m index :=
      bodyObserving_refines (fun u index => ih index u) n index u
    intro s t hst o s' hrun
    obtain ⟨t', hy, ht'⟩ := (observedRule_refines hbody index).of_observing s t hst o s' hrun
    exact ⟨t', eventually_of_succ hy, ht'⟩

/-- A parse comes to the same whether it is observed or not. -/
theorem ruleObserving_iff (w : Observer (State σ) N) {index : Nat} {s t : State σ}
    {o : Outcome Slot} (notes : List N) :
    (∃ n, machineRule E g n index s = some (o, t)) ↔
      ∃ n notes', ruleObserving E w g n index (s, notes) = some (o, (t, notes')) := by
  constructor
  · rintro ⟨n, hn⟩
    obtain ⟨⟨t', notes'⟩, hm, ht'⟩ :=
      refines_ruleObserving (w := w) n index () s (s, notes) rfl o t hn
    obtain ⟨m, hm⟩ := hm.exists
    obtain rfl : t' = t := after_besides.mp ht'
    exact ⟨m, notes', hm⟩
  · rintro ⟨n, notes', hn⟩
    obtain ⟨t', hm, ht'⟩ := ruleObserving_refines n index () (s, notes) s rfl o (t, notes') hn
    obtain rfl : t = t' := after_besides.mp (Relation.after_symm.mp ht')
    exact hm.exists

end

/-! ## Keeping an invariant -/

/-- What holds all along an observed parse: something of its states, and something else of its
notes. -/
def Invariant.beside (I : Invariant S) (G : List N → Prop) : Invariant (S × List N) where
  offsets := I.offsets
  holds s := I s.1 ∧ G s.2
  ended s := I.ended s.1 ∧ G s.2

theorem Ops.Keeps.observed {O : Ops S} {I : Invariant S} (hO : O.Keeps I) (G : List N → Prop) :
    (O.observed N).Keeps (I.beside G) where
  pos s hs := hO.pos s.1 hs.1
  goTo p s hp hs := ⟨⟨(hO.goTo p s.1 hp hs.1).1, hs.2⟩, (hO.goTo p s.1 hp hs.1).2⟩
  fail e s hs := ⟨⟨(hO.fail e s.1 hs.1).1, hs.2⟩, (hO.fail e s.1 hs.1).2⟩
  discard s hs := ⟨⟨(hO.discard s.1 hs.1).1, hs.2⟩, (hO.discard s.1 hs.1).2⟩
  hush s hs := ⟨⟨(hO.hush s.1 hs.1).1, hs.2⟩, (hO.hush s.1 hs.1).2⟩
  unhush s v t hs ht :=
    ⟨⟨(hO.unhush s.1 v t.1 hs.1 ht.1).1, ht.2⟩, (hO.unhush s.1 v t.1 hs.1 ht.1).2⟩
  unhush_ended s e t hs ht := ⟨hO.unhush_ended s.1 e t.1 hs.1 ht.1, ht.2⟩
  call a start args s v t hstart hs hrun := by
    obtain ⟨hout, rfl⟩ := Prod.mk.inj hrun
    obtain ⟨hI, hpos⟩ := hO.call a start args s.1 v _ hstart hs.1 (Prod.ext hout rfl)
    exact ⟨⟨hI, hs.2⟩, hpos⟩
  call_ended a start args s e t hstart hs hrun := by
    obtain ⟨hout, rfl⟩ := Prod.mk.inj hrun
    exact ⟨hO.call_ended a start args s.1 e _ hstart hs.1 (Prod.ext hout rfl), hs.2⟩

end Peg

end PegMachine
