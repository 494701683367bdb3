import PegMachine.Proofs.Peg

/-!
# Evaluating alike

Two recognizers that work on different states evaluate every expression alike, provided that their
operations keep a relation between the states. The relation comes in worlds: a world says in which
region without reports the states are. What happened before a parse was ended is related more
loosely, as nobody goes on from there.

The second recognizer may need more fuel than the first, so what is said of it is said of all large
amounts of fuel.
-/

namespace PegMachine

open Filter

/-- Two shapes are the same but for the rules that references name. -/
inductive Shape.Renames (call : String → String → Prop) : Shape → Shape → Prop where
  /-- They are the same, and no references. -/
  | same {s : Shape} (h : ∀ name, s ≠ .ruleRef name) : Shape.Renames call s s
  /-- They are references to rules that correspond. -/
  | ruleRef {name name' : String} (h : call name name') :
    Shape.Renames call (.ruleRef name) (.ruleRef name')

namespace Shape.Renames

variable {call : String → String → Prop} {s s' : Shape}

theorem of_eq (h : ∀ name, call name name) (s : Shape) : s.Renames call s := by
  cases s
  case ruleRef name => exact .ruleRef (h name)
  all_goals exact .same nofun

theorem symm (h : s.Renames call s') : s'.Renames (fun name name' => call name' name) s := by
  cases h with
  | same hs => exact .same hs
  | ruleRef hname => exact .ruleRef hname

theorem children_eq (h : s.Renames call s') : s'.children = s.children := by
  cases h <;> rfl

/-- The nodes around see no difference: an action is taken over by the same expressions. -/
theorem takesOver_eq (h : s.Renames call s') :
    Generate.takesOver s = Generate.takesOver s' := by
  cases h <;> rfl

/-- The nodes around see no difference: the same labels are in scope afterwards. -/
theorem after_eq {g g' : Grammar} {id : NodeId} (h : (g.shape id).Renames call (g'.shape id))
    (v : Slot) (env : Env) : Env.after g' id v env = Env.after g id v env := by
  unfold Env.after
  generalize g.shape id = s at h
  generalize g'.shape id = s' at h
  cases h <;> rfl

end Shape.Renames

namespace Peg

variable {S T W α β : Type}

/-- Invoke the rule that a name stands for, if there is one. -/
def called (g : Grammar) (invoke : Nat → Run S Slot) (name : String) : Run S Slot :=
  match g.ruleIndex? name with
  | some index => invoke index
  | none => pure .failed

/-- A relation between the states of two recognizers. -/
structure Relation (W S T : Type) where
  /-- States from which both go on. -/
  states : W → S → T → Prop
  /-- States at which the parse was ended. -/
  ends : W → S → T → Prop

/-- What a relation says of states after an outcome. -/
def Relation.after (R : Relation W S T) (w : W) : Outcome α → S → T → Prop
  | .ok _ => R.states w
  | .error _ => R.ends w

/-- The relation from the other side. -/
def Relation.symm (R : Relation W S T) : Relation W T S where
  states w t s := R.states w s t
  ends w t s := R.ends w s t

theorem Relation.after_symm {R : Relation W S T} {w : W} {o : Outcome α} {s : S} {t : T} :
    R.symm.after w o t s ↔ R.after w o s t := by
  cases o <;> rfl

/-- The operations of two recognizers keep a relation between their states. -/
structure Linked (O : Ops S) (P : Ops T) (R : Relation W S T) : Prop where
  pos_eq : ∀ {w s t}, R.states w s t → O.pos s = P.pos t
  after_goTo : ∀ {w s t} p, R.states w s t → R.states w (O.goTo p s) (P.goTo p t)
  after_fail : ∀ {w s t} e, R.states w s t → R.states w (O.fail e s) (P.fail e t)
  after_discard : ∀ {w s t}, R.states w s t → R.states w (O.discard s) (P.discard t)
  after_hush : ∀ {w s t}, R.states w s t → ∃ w', R.states w' (O.hush s) (P.hush t) ∧
    ∀ (o : Outcome Slot) s' t', R.after w' o s' t' →
      R.after w o (O.unhush s o s') (P.unhush t o t')
  after_call : ∀ {w s t} a p args, R.states w s t →
    (O.call a p args s).1 = (P.call a p args t).1 ∧
      R.after w (O.call a p args s).1 (O.call a p args s).2 (P.call a p args t).2

/-- Neither recognizer comes first. -/
theorem Linked.symm {O : Ops S} {P : Ops T} {R : Relation W S T} (h : Linked O P R) :
    Linked P O R.symm where
  pos_eq hst := (h.pos_eq hst).symm
  after_goTo p hst := h.after_goTo p hst
  after_fail e hst := h.after_fail e hst
  after_discard hst := h.after_discard hst
  after_hush hst := by
    obtain ⟨w', hw', hback⟩ := h.after_hush hst
    refine ⟨w', hw', fun o t' s' hst' => ?_⟩
    rw [Relation.after_symm] at hst' ⊢
    exact hback o s' t' hst'
  after_call a p args hst := by
    obtain ⟨ho, hafter⟩ := h.after_call a p args hst
    rw [ho] at hafter
    exact ⟨ho.symm, Relation.after_symm.mpr hafter⟩

/-- Whatever a run comes to, a family of runs over other states comes to the same with enough
fuel. -/
def Refines (R : Relation W S T) (w : W) (x : Run S α) (y : Nat → Run T α) : Prop :=
  ∀ s t, R.states w s t → ∀ o s', x s = some (o, s') →
    ∃ t', (∀ᶠ n in atTop, y n t = some (o, t')) ∧ R.after w o s' t'

namespace Refines

variable {R : Relation W S T} {w : W} {x : Run S α} {y : Nat → Run T α}

theorem forever : Refines R w (Run.forever : Run S α) y := by
  rintro s t - o s' ⟨⟩

theorem pure (a : α) : Refines R w (Pure.pure a : Run S α) fun _ => Pure.pure a := by
  intro s t h o s' hx
  cases hx
  exact ⟨t, .of_forall fun _ => rfl, h⟩

theorem bind {f : α → Run S β} {g : Nat → α → Run T β} (hx : Refines R w x y)
    (hf : ∀ a, Refines R w (f a) fun n => g n a) :
    Refines R w (x >>= f) fun n => y n >>= g n := by
  intro s t h o s' hrun
  rcases Run.bind_eq_some.mp hrun with ⟨a, u, hxa, hfa⟩ | ⟨e, hxe, rfl⟩
  · obtain ⟨u', hy, hu⟩ := hx s t h _ _ hxa
    obtain ⟨t', hg, ht⟩ := hf a u u' hu _ _ hfa
    refine ⟨t', ?_, ht⟩
    filter_upwards [hy, hg] with n hy hg
    rw [Run.bind_ok hy, hg]
  · obtain ⟨t', hy, ht⟩ := hx s t h _ _ hxe
    refine ⟨t', ?_, ht⟩
    filter_upwards [hy] with n hy
    exact Run.bind_error hy

theorem ite {p : Prop} [Decidable p] {x₁ x₂ : Run S α} {y₁ y₂ : Nat → Run T α}
    (h₁ : Refines R w x₁ y₁) (h₂ : Refines R w x₂ y₂) :
    Refines R w (if p then x₁ else x₂) fun n => if p then y₁ n else y₂ n := by
  split
  · exact h₁
  · exact h₂

/-- A repetition needs enough fuel for each round and for their number. -/
theorem repeatWhile {test : α → Bool} {step : α → Run S α} {step' : Nat → α → Run T α}
    (hstep : ∀ a, Refines R w (step a) fun n => step' n a) (rounds : Nat) (a : α) :
    Refines R w (Run.repeatWhile (fun a _ => test a) step rounds a) fun n =>
      Run.repeatWhile (fun a _ => test a) (step' n) n a := by
  intro s t h o s' hrun
  suffices hmany : ∃ t', (∃ N, ∀ n ≥ N, ∀ k ≥ N,
      Run.repeatWhile (fun a _ => test a) (step' n) k a t = some (o, t')) ∧ R.after w o s' t' by
    obtain ⟨t', ⟨N, hN⟩, ht⟩ := hmany
    exact ⟨t', eventually_atTop.mpr ⟨N, fun n hn => hN n hn n hn⟩, ht⟩
  induction rounds generalizing a s t with
  | zero => cases hrun
  | succ rounds ih =>
    cases hgo : test a with
    | false =>
      rw [Run.repeatWhile_of_not hgo] at hrun
      cases hrun
      refine ⟨t, ⟨1, fun n _ k hk => ?_⟩, h⟩
      obtain ⟨k, rfl⟩ := Nat.exists_eq_add_of_le' hk
      exact Run.repeatWhile_of_not hgo
    | true =>
      rw [Run.repeatWhile_of_test hgo] at hrun
      rcases Run.bind_eq_some.mp hrun with ⟨b, u, hb, hrest⟩ | ⟨e, he, rfl⟩
      · obtain ⟨u', hy, hu⟩ := hstep a s t h _ _ hb
        obtain ⟨t', ⟨N, hN⟩, ht⟩ := ih b u u' hu hrest
        obtain ⟨M, hM⟩ := eventually_atTop.mp hy
        refine ⟨t', ⟨max M N + 1, fun n hn k hk => ?_⟩, ht⟩
        obtain ⟨k, rfl⟩ := Nat.exists_eq_add_of_le' (Nat.one_le_of_lt hk)
        rw [Run.repeatWhile_of_test hgo, Run.bind_ok (hM n (by omega))]
        exact hN n (by omega) k (by omega)
      · obtain ⟨t', hy, ht⟩ := hstep a s t h _ _ he
        obtain ⟨M, hM⟩ := eventually_atTop.mp hy
        refine ⟨t', ⟨M + 1, fun n hn k hk => ?_⟩, ht⟩
        obtain ⟨k, rfl⟩ := Nat.exists_eq_add_of_le' (Nat.one_le_of_lt hk)
        rw [Run.repeatWhile_of_test hgo, Run.bind_error (hM n (by omega))]

end Refines

/-! ## Single steps -/

namespace Linked

variable {O : Ops S} {P : Ops T} {R : Relation W S T} {w : W}

theorem here (h : Linked O P R) : Refines R w (Peg.here O) fun _ => Peg.here P := by
  intro s t hst o s' hx
  cases hx
  exact ⟨t, .of_forall fun _ => by simp only [here_apply, h.pos_eq hst], hst⟩

theorem goTo (h : Linked O P R) (p : Nat) : Refines R w (Peg.goTo O p) fun _ => Peg.goTo P p := by
  intro s t hst o s' hx
  cases hx
  exact ⟨_, .of_forall fun _ => rfl, h.after_goTo p hst⟩

theorem want (h : Linked O P R) (e : Expectation) :
    Refines R w (Peg.want O e) fun _ => Peg.want P e := by
  intro s t hst o s' hx
  cases hx
  exact ⟨_, .of_forall fun _ => rfl, h.after_fail e hst⟩

theorem discard (h : Linked O P R) : Refines R w (Peg.discard O) fun _ => Peg.discard P := by
  intro s t hst o s' hx
  cases hx
  exact ⟨_, .of_forall fun _ => rfl, h.after_discard hst⟩

theorem retreat (h : Linked O P R) (p : Nat) :
    Refines R w (Peg.retreat O p) fun _ => Peg.retreat P p :=
  (h.goTo p).bind fun _ => h.discard

theorem act (h : Linked O P R) (source : String) (start : Nat) (env : Env) :
    Refines R w (Peg.act O source start env) fun _ => Peg.act P source start env := by
  intro s t hst o s' hx
  obtain ⟨ho, hafter⟩ := h.after_call ⟨env.map (·.1), source⟩ start (env.map (·.2)) hst
  rw [act_apply, Option.some.injEq] at hx
  rw [hx] at ho hafter
  exact ⟨_, .of_forall fun _ => congrArg some (Prod.ext ho.symm rfl), hafter⟩

/-- Something done quietly is done in another world. -/
theorem quietly (h : Linked O P R) {x : Run S Slot} {y : Nat → Run T Slot}
    (hx : ∀ w, Refines R w x y) : Refines R w (Peg.quietly O x) fun n => Peg.quietly P (y n) := by
  intro s t hst o s' hrun
  obtain ⟨w', hw', hback⟩ := h.after_hush hst
  cases hxs : x (O.hush s) with
  | none => simp [Peg.quietly, hxs] at hrun
  | some r =>
    obtain ⟨o₁, u⟩ := r
    simp only [Peg.quietly, hxs] at hrun
    cases hrun
    obtain ⟨u', hy, hu⟩ := hx w' _ _ hw' _ _ hxs
    refine ⟨P.unhush t o u', ?_, hback _ _ _ hu⟩
    filter_upwards [hy] with n hn
    simp only [Peg.quietly, hn]

theorem terminal (h : Linked O P R) (input : Input) (shape : Shape) :
    Refines R w (Peg.terminal O input shape) fun _ => Peg.terminal P input shape := by
  intro s t hst o s' hx
  have hpos := h.pos_eq hst
  cases htaken : taken? input (O.pos s) shape with
  | none =>
    simp only [Peg.terminal, htaken] at hx
    cases hx
    refine ⟨_, .of_forall fun _ => ?_, h.after_fail (wanted shape) hst⟩
    simp only [Peg.terminal, ← hpos, htaken]
  | some text =>
    simp only [Peg.terminal, htaken] at hx
    cases hx
    refine ⟨_, .of_forall fun _ => ?_, h.after_goTo (O.pos s + Text.byteSize text) hst⟩
    simp only [Peg.terminal, ← hpos, htaken]

/-! ## Composite expressions -/

variable {x : Run S Slot} {y : Nat → Run T Slot}

theorem named (h : Linked O P R) (hx : ∀ w, Refines R w x y) (name : String) :
    Refines R w (Peg.named O name x) fun n => Peg.named P name (y n) :=
  (h.quietly hx).bind fun _ => (h.want _).ite (.pure _)

theorem choice {f : NodeId → Run S Slot} {f' : Nat → NodeId → Run T Slot} {es : List NodeId}
    (hf : ∀ e ∈ es, Refines R w (f e) fun n => f' n e) :
    Refines R w (Peg.choice (es.map f)) fun n => Peg.choice (es.map (f' n)) := by
  induction es with
  | nil => exact .pure _
  | cons first rest ih =>
    have hfirst := hf first List.mem_cons_self
    cases rest with
    | nil => exact hfirst
    | cons second rest =>
      have hrest := ih fun e he => hf e (List.mem_cons_of_mem _ he)
      exact hfirst.bind fun _ => hrest.ite (.pure _)

theorem text (h : Linked O P R) (hx : Refines R w x y) (input : Input) :
    Refines R w (Peg.text O input x) fun n => Peg.text P input (y n) :=
  h.here.bind fun _ => hx.bind fun _ => (Refines.pure _).ite (h.here.bind fun _ => .pure _)

theorem optional (hx : Refines R w x y) :
    Refines R w (Peg.optional x) fun n => Peg.optional (y n) :=
  hx.bind fun _ => (Refines.pure _).ite (.pure _)

theorem predicate (h : Linked O P R) (hx : ∀ w, Refines R w x y) (negative : Bool) :
    Refines R w (Peg.predicate O negative x) fun n => Peg.predicate P negative (y n) :=
  h.here.bind fun start => (h.quietly hx).bind fun _ =>
    .ite ((Refines.pure _).ite (h.retreat start))
      (h.discard.ite ((h.goTo start).bind fun _ => .pure _))

theorem semantic (h : Linked O P R) (source : String) (negative : Bool) (env : Env) :
    Refines R w (Peg.semantic O source negative env) fun _ =>
      Peg.semantic P source negative env :=
  h.here.bind fun start => (h.quietly fun _ => h.act source start env).bind fun _ =>
    h.discard.ite (.pure _)

theorem code (h : Linked O P R) (source : String) (env : Env) :
    Refines R w (Peg.code O source env) fun _ => Peg.code P source env :=
  h.here.bind fun start => (h.act source start env).bind fun _ => (h.want _).ite (.pure _)

theorem items {again : List Value → Run S Slot} {again' : Nat → List Value → Run T Slot}
    (hagain : ∀ values, Refines R w (again values) fun n => again' n values) (rounds : Nat)
    (first : Slot) :
    Refines R w (Peg.items rounds again first) fun n => Peg.items n (again' n) first :=
  (Refines.repeatWhile (fun _ => (hagain _).bind fun _ => .pure _) rounds ([], first)).bind
    fun _ => .pure _

theorem zeroOrMore (hx : Refines R w x y) (rounds : Nat) :
    Refines R w (Peg.zeroOrMore rounds x) fun n => Peg.zeroOrMore n (y n) :=
  hx.bind fun first => (items (fun _ => hx) rounds first).bind fun _ => .pure _

theorem oneOrMore (h : Linked O P R) (hx : Refines R w x y) (rounds : Nat) :
    Refines R w (Peg.oneOrMore O rounds x) fun n => Peg.oneOrMore P n (y n) :=
  hx.bind fun first => h.discard.ite ((items (fun _ => hx) rounds first).bind fun _ => .pure _)

theorem delimited (h : Linked O P R) {d : Run S Slot} {d' : Nat → Run T Slot}
    (hd : Refines R w d d') (hx : Refines R w x y) :
    Refines R w (Peg.delimited O d x) fun n => Peg.delimited P (d' n) (y n) :=
  h.here.bind fun start => hd.bind fun _ => (Refines.pure _).ite
    (hx.bind fun _ => (h.retreat start).ite (.pure _))

theorem bounded (h : Linked O P R) (hx : Refines R w x y) (max : Option UInt32)
    (values : List Value) :
    Refines R w (Peg.bounded O max x values) fun n => Peg.bounded P max (y n) values := by
  cases max with
  | none => exact hx
  | some max => exact h.discard.ite hx

theorem range (h : Linked O P R) {further : Run S Slot} {further' : Nat → Run T Slot}
    (hx : Refines R w x y) (hfurther : Refines R w further further') (rounds : Nat)
    (min : UInt32) (max : Option UInt32) :
    Refines R w (Peg.range O rounds min max x further) fun n =>
      Peg.range P n min max (y n) (further' n) :=
  h.here.bind fun start => hx.bind fun first =>
    (items (fun values => h.bounded hfurther max values) rounds first).bind fun _ =>
      (h.retreat start).ite (.pure _)

theorem sequenceEnd (h : Linked O P R) (action? : Option String) (start : Nat)
    (values : List Slot) (env : Env) :
    Refines R w (Peg.sequenceEnd O action? start values env) fun _ =>
      Peg.sequenceEnd P action? start values env := by
  cases action? with
  | none => exact .pure _
  | some source => exact h.act source start env

theorem elements (h : Linked O P R) {eval : NodeId → Env → Run S Slot}
    {eval' : Nat → NodeId → Env → Run T Slot} {g g' : Grammar} (start : Nat)
    {finish : List Slot → Env → Run S Slot} {finish' : Nat → List Slot → Env → Run T Slot}
    {es : List NodeId} (heval : ∀ e ∈ es, ∀ env, Refines R w (eval e env) fun n => eval' n e env)
    (hafter : ∀ e ∈ es, ∀ v env, Env.after g' e v env = Env.after g e v env)
    (hfinish : ∀ values env, Refines R w (finish values env) fun n => finish' n values env)
    (values : List Slot) (env : Env) :
    Refines R w (Peg.elements O eval g start finish es values env) fun n =>
      Peg.elements P (eval' n) g' start (finish' n) es values env := by
  induction es generalizing values env with
  | nil => exact hfinish values env
  | cons e es ih =>
    refine (heval e List.mem_cons_self env).bind fun v => (h.retreat start).ite ?_
    rw [hafter e List.mem_cons_self]
    exact ih (fun e he => heval e (List.mem_cons_of_mem _ he))
      (fun e he => hafter e (List.mem_cons_of_mem _ he)) _ _

theorem actionAround (h : Linked O P R) (hx : Refines R w x y) {g g' : Grammar} {e : NodeId}
    (hafter : ∀ v env, Env.after g' e v env = Env.after g e v env) (source : String) (env : Env) :
    Refines R w (Peg.actionAround O g e x source env) fun n =>
      Peg.actionAround P g' e (y n) source env := by
  refine h.here.bind fun start => hx.bind fun v => (Refines.pure _).ite ?_
  rw [hafter]
  exact h.act source start _

/-! ## Expressions -/

section

variable {input : Input} {g g' : Grammar} {invoke : Nat → Run S Slot}
  {invoke' : Nat → Nat → Run T Slot} {call : String → String → Prop}

/-- A node that is the same in two grammars but for the rules that are referred to is evaluated
alike if these rules are invoked alike and the nodes below are evaluated alike. -/
theorem levelBetween (h : Linked O P R) {id : NodeId}
    (hshape : (g.shape id).Renames call (g'.shape id))
    (hseen : ∀ e ∈ g.children id, (g.shape e).Renames call (g'.shape e))
    (hcall : ∀ name name', call name name' → ∀ w,
      Refines R w (called g invoke name) fun n => called g' (invoke' n) name')
    {below : NodeId → Env → Option String → Run S Slot}
    {below' : Nat → NodeId → Env → Option String → Run T Slot}
    (hbelow : ∀ e ∈ g.children id, ∀ env action? w,
      Refines R w (below e env action?) fun n => below' n e env action?)
    (rounds : Nat) (env : Env) (action? : Option String) (w : W) :
    Refines R w (Peg.level O input g invoke rounds below id env action?) fun n =>
      Peg.level P input g' (invoke' n) n (below' n) id env action? := by
  simp only [Peg.level]
  rw [Grammar.children] at hseen hbelow
  generalize g.shape id = s at hshape hseen hbelow
  generalize g'.shape id = s' at hshape
  cases hshape with
  | ruleRef hname => exact hcall _ _ hname w
  | same hs =>
    have hone {e : NodeId} (he : e ∈ s.children) (env : Env) (w : W) :
        Refines R w (below e env none) fun n => below' n e env none := hbelow e he env none w
    cases s with
    | named name e => exact h.named (hone List.mem_cons_self env) name
    | choice alternatives => exact choice fun e he => hone he env w
    | action e source =>
      have he := List.mem_singleton_self e
      have hx := hbelow e he env (some source) w
      dsimp only
      rw [(hseen e he).takesOver_eq]
      exact hx.ite (h.actionAround hx (hseen e he).after_eq source env)
    | sequence es =>
      exact h.here.bind fun start => h.elements start (fun e he env => hone he env w)
        (fun e he => (hseen e he).after_eq)
        (fun values env => h.sequenceEnd action? start values env) [] env
    | labeled label e => exact hone (List.mem_singleton_self e) env w
    | text e => exact h.text (hone (List.mem_singleton_self e) env w) input
    | simpleAnd e => exact h.predicate (hone (List.mem_singleton_self e) env) false
    | simpleNot e => exact h.predicate (hone (List.mem_singleton_self e) env) true
    | optional e => exact optional (hone (List.mem_singleton_self e) env w)
    | zeroOrMore e => exact zeroOrMore (hone (List.mem_singleton_self e) env w) rounds
    | oneOrMore e => exact h.oneOrMore (hone (List.mem_singleton_self e) env w) rounds
    | range min max e delimiter =>
      have hitem := hone (e := e) List.mem_cons_self [] w
      refine (Refines.pure _).ite (h.range hitem ?_ rounds min max)
      cases delimiter with
      | none => exact hitem
      | some d =>
        exact h.delimited (hone (List.mem_cons_of_mem _ (List.mem_singleton_self d)) [] w) hitem
    | semanticAnd source => exact h.semantic source false env
    | semanticNot source => exact h.semantic source true env
    | ruleRef name => exact absurd rfl (hs name)
    | code source => exact h.code source env
    | literal | charClass | regex | any | epsilon => exact h.terminal input _

variable (hinvoke : ∀ w index, Refines R w (invoke index) fun n => invoke' n index)
include hinvoke

/-- A node is evaluated alike if rules are invoked alike and the nodes below are evaluated alike. -/
theorem level (h : Linked O P R) {below : NodeId → Env → Option String → Run S Slot}
    {below' : Nat → NodeId → Env → Option String → Run T Slot}
    (hbelow : ∀ e env action? w, Refines R w (below e env action?) fun n => below' n e env action?)
    (rounds : Nat) (id : NodeId) (env : Env) (action? : Option String) (w : W) :
    Refines R w (Peg.level O input g invoke rounds below id env action?) fun n =>
      Peg.level P input g (invoke' n) n (below' n) id env action? := by
  have hsame (id : NodeId) : (g.shape id).Renames Eq (g.shape id) := .of_eq (fun _ => rfl) _
  refine h.levelBetween (hsame id) (fun e _ => hsame e) ?_ (fun e _ => hbelow e) rounds env action?
    w
  rintro name _ rfl w
  unfold called
  split
  · exact hinvoke w _
  · exact .pure _

/-- Expressions are evaluated alike if rules are invoked alike. -/
theorem eval (h : Linked O P R) (rounds : Nat)
    (depth : Nat) (id : NodeId) (env : Env) (action? : Option String) (w : W) :
    Refines R w (Peg.eval O input g invoke rounds depth id env action?) fun n =>
      Peg.eval P input g (invoke' n) n depth id env action? := by
  induction depth generalizing id env action? w with
  | zero => exact .forever
  | succ depth ih => exact level hinvoke h ih rounds id env action? w

theorem body (h : Linked O P R) (rounds index : Nat) (w : W) :
    Refines R w (Peg.body O input g invoke rounds index) fun n =>
      Peg.body P input g (invoke' n) n index := by
  simp only [Peg.body]
  cases g.rules[index]? with
  | none => exact .pure _
  | some r => exact eval hinvoke h rounds g.depthBound r.expression [] none w

end

end Linked

end Peg

end PegMachine
