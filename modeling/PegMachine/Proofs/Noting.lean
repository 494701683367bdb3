import PegMachine.Proofs.Movement
import PegMachine.Proofs.Observing
import PegMachine.Proofs.Trees

/-!
# Noting what is matched

A parse can be watched: beside its state goes a list of notes, one for each node and each rule that
was matched so far, with the offsets between which it was. A note is kept when the match is given up
afterwards. Watching is a way of observing, so it changes nothing in the parse, and what languages
say of matches holds of all notes.
-/

namespace PegMachine

/-- Something was matched between two offsets. -/
structure Matched where
  subject : Subject
  start : Nat
  stop : Nat
deriving Repr, DecidableEq

namespace Peg

open Filter Peg.Language

variable {S σ : Type}

/-! ## Watched evaluation -/

/-- A recognizer that leaves the notes beside its states alone. -/
def Ops.watched (O : Ops S) : Ops (S × List Matched) where
  pos s := O.pos s.1
  goTo p s := (O.goTo p s.1, s.2)
  fail e s := (O.fail e s.1, s.2)
  discard s := (O.discard s.1, s.2)
  hush s := (O.hush s.1, s.2)
  unhush s o t := (O.unhush s.1 o t.1, t.2)
  call a start args s :=
    let (o, t) := O.call a start args s.1
    (o, t, s.2)

/-- The state after an evaluation, with a note of the match if there was one. -/
def noted (O : Ops S) (subject : Subject) (s : S × List Matched) (o : Outcome Slot)
    (t : S × List Matched) : S × List Matched :=
  match o with
  | .ok v => if v.isFailed then t else (t.1, ⟨subject, O.pos s.1, O.pos t.1⟩ :: t.2)
  | .error _ => t

/-- Note a match. -/
def noting (O : Ops S) (subject : Subject) (x : Run (S × List Matched) Slot) :
    Run (S × List Matched) Slot := fun s =>
  match x s with
  | some (o, t) => some (o, noted O subject s o t)
  | none => none

/-- Evaluate a node and note all matches. -/
def evalNoting (O : Ops S) (input : Input) (g : Grammar)
    (invoke : Nat → Run (S × List Matched) Slot) (rounds : Nat) :
    Nat → NodeId → Env → Option String → Run (S × List Matched) Slot
  | 0, _, _, _ => .forever
  | depth + 1, id, env, action? => noting O (.node id)
      (level O.watched input g invoke rounds (evalNoting O input g invoke rounds depth) id env
        action?)

/-- Evaluate the expression of a rule and note all matches. -/
def bodyNoting (O : Ops S) (input : Input) (g : Grammar) (invoke : Nat → Run (S × List Matched) Slot)
    (rounds index : Nat) : Run (S × List Matched) Slot :=
  match g.rules[index]? with
  | some r => evalNoting O input g invoke rounds g.depthBound r.expression [] none
  | none => pure .failed

/-- Invoke a rule with a body that notes matches. Nothing is matched anew where an outcome is
recalled. -/
def watchedRule (E : Setting σ) (index : Nat) (body : Run (State σ × List Matched) Slot) :
    Run (State σ × List Matched) Slot := fun s =>
  let entry := s.1.entered E index
  match entry.memoized? E index with
  | some (nextPos, result) =>
    some (.ok result, entry.recalled E index s.1.pos nextPos result, s.2)
  | none =>
    match body ({ entry with currentRule := some index }, s.2) with
    | some (o, t) => some (o, State.left E s.1 index o t.1, t.2)
    | none => none

/-- Invoke a rule and note all matches, for as long as the fuel lasts. The invocation itself is
noted also if its outcome was recalled. -/
def ruleNoting (E : Setting σ) (g : Grammar) : Nat → Nat → Run (State σ × List Matched) Slot
  | 0, _ => .forever
  | fuel + 1, index => noting (machine E) (.rule index) (watchedRule E index
      (bodyNoting (machine E) E.input g (ruleNoting E g fuel) fuel index))

/-! ## Watching changes nothing -/

/-- Who notes matches, and nothing else. -/
def watcher (O : Ops S) : Observer S Matched := fun subject s v t =>
  if v.isFailed then [] else [⟨subject, O.pos s.1, O.pos t.1⟩]

section

variable {O : Ops S} {subject : Subject} {s : S × List Matched} {o : Outcome Slot}

theorem noting_eq_some {x : Run (S × List Matched) Slot} {u : S × List Matched} :
    noting O subject x s = some (o, u) ↔ ∃ t, x s = some (o, t) ∧ u = noted O subject s o t := by
  rw [noting]
  cases x s with
  | none => simp
  | some r =>
    obtain ⟨o', t⟩ := r
    simp only [Option.some.injEq, Prod.mk.injEq]
    constructor
    · rintro ⟨rfl, rfl⟩
      exact ⟨t, ⟨rfl, rfl⟩, rfl⟩
    · rintro ⟨t', ⟨rfl, rfl⟩, rfl⟩
      exact ⟨rfl, rfl⟩

theorem noting_eq (x : Run (S × List Matched) Slot) :
    noting O subject x = observing (watcher O) subject x := by
  funext s
  rw [noting, observing]
  rcases x s with - | ⟨e | v, t⟩
  · rfl
  · rfl
  · dsimp only
    rw [noted, observed, watcher]
    split <;> rfl

theorem evalNoting_eq {input : Input} {g : Grammar} (invoke : Nat → Run (S × List Matched) Slot)
    (rounds depth : Nat) : evalNoting O input g invoke rounds depth =
      evalObserving O (watcher O) input g invoke rounds depth := by
  induction depth with
  | zero => rfl
  | succ depth ih =>
    funext id env action?
    rw [evalNoting, evalObserving, noting_eq, ih]
    rfl

end

section

variable {E : Setting σ} {g : Grammar}

theorem watchedRule_eq (index : Nat) (x : Run (State σ × List Matched) Slot) :
    watchedRule E index x = observedRule E index x := by
  funext s
  rw [watchedRule, observedRule]
  cases (s.1.entered E index).memoized? E index with
  | some hit => rfl
  | none =>
    dsimp only
    cases x ({ s.1.entered E index with currentRule := some index }, s.2) <;> rfl

/-- What became of a watched invocation was recalled, or it became of its body. -/
theorem watchedRule_eq_some {index : Nat} {x : Run (State σ × List Matched) Slot}
    {s u : State σ × List Matched} {o : Outcome Slot} :
    watchedRule E index x s = some (o, u) ↔
      (∃ nextPos result, (s.1.entered E index).memoized? E index = some (nextPos, result) ∧
        o = .ok result ∧
        u = ((s.1.entered E index).recalled E index s.1.pos nextPos result, s.2)) ∨
      ((s.1.entered E index).memoized? E index = none ∧
        ∃ t, x ({ s.1.entered E index with currentRule := some index }, s.2) = some (o, t) ∧
          u = (State.left E s.1 index o t.1, t.2)) := by
  rw [watchedRule_eq]
  exact observedRule_eq_some

/-- Watching is observing. -/
theorem ruleNoting_eq (fuel : Nat) :
    ruleNoting E g fuel = ruleObserving E (watcher (machine E)) g fuel := by
  induction fuel with
  | zero => rfl
  | succ fuel ih =>
    funext index
    have hbody : bodyNoting (machine E) E.input g (ruleNoting E g fuel) fuel index =
        bodyObserving (machine E) (watcher (machine E)) E.input g
          (ruleObserving E (watcher (machine E)) g fuel) fuel index := by
      rw [bodyNoting, bodyObserving, ih]
      cases g.rules[index]? with
      | none => rfl
      | some r => exact congrFun (congrFun (congrFun (evalNoting_eq _ fuel _) _) _) _
    rw [ruleNoting, ruleObserving, noting_eq, watchedRule_eq, hbody]

/-- A parse comes to the same whether it is watched or not. -/
theorem ruleNoting_iff {index : Nat} {s t : State σ} {o : Outcome Slot} (notes : List Matched) :
    (∃ n, machineRule E g n index s = some (o, t)) ↔
      ∃ n notes', ruleNoting E g n index (s, notes) = some (o, (t, notes')) := by
  simp only [ruleNoting_eq]
  exact ruleObserving_iff (watcher (machine E)) notes

/-- A rule that matches is noted. -/
theorem mem_of_ruleNoting {n index : Nat} {s t : State σ} {v : Slot} {notes notes' : List Matched}
    (h : ruleNoting E g n index (s, notes) = some (.ok v, t, notes')) (hv : ¬v.isFailed = true) :
    ⟨.rule index, s.pos, t.pos⟩ ∈ notes' := by
  cases n with
  | zero => cases h
  | succ n =>
    obtain ⟨u, -, hu⟩ := noting_eq_some.mp h
    rw [noted, if_neg hv] at hu
    cases hu
    exact List.mem_cons_self

end

/-! ## Notes keep to languages -/

/-- The offsets to which a parse may go are boundaries, and all notes are good. -/
def watching (O : Ops S) (input : Input) (I : S → Prop) (good : Matched → Prop) :
    Invariant (S × List Matched) where
  offsets p := ∃ cs, input.rest? p = some cs
  holds s := I s.1 ∧ (∃ cs, input.rest? (O.pos s.1) = some cs) ∧ ∀ note ∈ s.2, good note
  ended s := ∀ note ∈ s.2, good note

section

variable {O : Ops S} {input : Input} {I : S → Prop} {good : Matched → Prop} {L : Language}
  {subject : Subject}

theorem spreads_watching : (watching O input I good).Spreads input := by
  rintro a shape text ⟨cs, ha⟩ htaken
  obtain ⟨rest, rfl⟩ := taken?_prefix ha htaken
  exact ⟨rest, Input.rest?_add ha⟩

theorem Ops.Keeps.watched (hO : O.Keeps (.of I)) : O.watched.Keeps (watching O input I good) where
  pos s hs := hs.2.1
  goTo p s hp hs := by
    obtain ⟨hI, hpos⟩ := hO.goTo p s.1 trivial hs.1
    have hp' : ∃ cs, input.rest? (O.pos (O.goTo p s.1)) = some cs := by rwa [hpos]
    exact ⟨⟨hI, hp', hs.2.2⟩, hpos⟩
  fail e s hs := by
    obtain ⟨hI, hpos⟩ := hO.fail e s.1 hs.1
    exact ⟨⟨hI, hpos ▸ hs.2.1, hs.2.2⟩, hpos⟩
  discard s hs := by
    obtain ⟨hI, hpos⟩ := hO.discard s.1 hs.1
    exact ⟨⟨hI, hpos ▸ hs.2.1, hs.2.2⟩, hpos⟩
  hush s hs := by
    obtain ⟨hI, hpos⟩ := hO.hush s.1 hs.1
    exact ⟨⟨hI, hpos ▸ hs.2.1, hs.2.2⟩, hpos⟩
  unhush s v t hs ht := by
    obtain ⟨hI, hpos⟩ := hO.unhush s.1 v t.1 hs.1 ht.1
    exact ⟨⟨hI, hpos ▸ ht.2.1, ht.2.2⟩, hpos⟩
  unhush_ended s e t _ ht := ht
  call a start args s v t hstart hs hrun := by
    obtain ⟨hout, rfl⟩ := Prod.mk.inj hrun
    obtain ⟨hI, hpos⟩ := hO.call a start args s.1 v _ trivial hs.1 (Prod.ext hout rfl)
    refine ⟨⟨hI, ?_, hs.2.2⟩, hpos⟩
    rw [hpos]
    split
    · exact hstart
    · exact hs.2.1
  call_ended a start args s e t _ hs hrun := by
    obtain ⟨-, rfl⟩ := Prod.mk.inj hrun
    exact hs.2.2

/-- A match is noted if that is good. -/
theorem Matches.noting {x : Run (S × List Matched) Slot}
    (hx : Matches O.watched (watching O input I good) x L)
    (hgood : ∀ a b, (∃ cs, input.rest? a = some cs) → L a b → good ⟨subject, a, b⟩) :
    Matches O.watched (watching O input I good) (Peg.noting O subject x) L := by
  intro s hs
  have hends := hx s hs
  refine ⟨fun v u hrun => ?_, fun e u hrun => ?_⟩
  · obtain ⟨t, ht, rfl⟩ := noting_eq_some.mp hrun
    obtain ⟨⟨hI, hpos, hnotes⟩, hleft⟩ := hends.ok v t ht
    rw [noted]
    split
    · exact ⟨⟨hI, hpos, hnotes⟩, hleft⟩
    · next hv =>
      have hnote := hgood _ _ hs.2.1 (hleft.of_matched hv)
      exact ⟨⟨hI, hpos, List.forall_mem_cons.mpr ⟨hnote, hnotes⟩⟩, hleft⟩
  · obtain ⟨t, ht, hu⟩ := noting_eq_some.mp hrun
    rw [hu]
    exact hends.error e t ht

/-- A node is evaluated within its language, and the matches of nodes that belong to rules are good
if their languages say so. -/
theorem evalNoting_matches (hO : O.Keeps (.of I)) {g : Grammar} {rule : Nat → Language}
    {invoke : Nat → Run (S × List Matched) Slot}
    (hinvoke : ∀ index,
      Matches O.watched (watching O input I good) (invoke index) (rule index))
    (hgood : ∀ id depth a b, g.Owned id → (∃ cs, input.rest? a = some cs) →
      ofNode input g rule depth id a b → good ⟨.node id, a, b⟩)
    (rounds depth : Nat) {id : NodeId} (howned : g.Owned id) (env : Env)
    (action? : Option String) :
    Matches O.watched (watching O input I good)
      (evalNoting O input g invoke rounds depth id env action?) (ofNode input g rule depth id) := by
  induction depth generalizing id env action? with
  | zero => exact matches_forever
  | succ depth ih =>
    have hlevel := level_matches hO.watched spreads_watching (fun index _ => hinvoke index)
      (fun e he env action? => ih (howned.child he) env action?) rounds env action?
    exact hlevel.noting fun a b => hgood id (depth + 1) a b howned

theorem bodyNoting_matches (hO : O.Keeps (.of I)) {g : Grammar} {rule : Nat → Language}
    {invoke : Nat → Run (S × List Matched) Slot}
    (hinvoke : ∀ index,
      Matches O.watched (watching O input I good) (invoke index) (rule index))
    (hgood : ∀ id depth a b, g.Owned id → (∃ cs, input.rest? a = some cs) →
      ofNode input g rule depth id a b → good ⟨.node id, a, b⟩)
    (rounds index : Nat) :
    Matches O.watched (watching O input I good) (bodyNoting O input g invoke rounds index)
      (ofRule input g rule index) := by
  rw [bodyNoting]
  cases hr : g.rules[index]? with
  | none => exact fun s hs => .pure ⟨hs, .failed rfl⟩
  | some r =>
    have howned : g.Owned r.expression := ⟨r, List.mem_of_getElem? hr, .refl⟩
    exact (evalNoting_matches hO hinvoke hgood rounds g.depthBound howned [] none).weaken
      fun _ _ h => ⟨r, hr, h⟩

end

section

variable {E : Setting σ} {g : Grammar} {rule : Nat → Language} {good : Matched → Prop}

/-- All matches in a parse are good if the languages of nodes and rules say so. -/
theorem ruleNoting_matches
    (hnode : ∀ id depth a b, g.Owned id → (∃ cs, E.input.rest? a = some cs) →
      ofNode E.input g rule depth id a b → good ⟨.node id, a, b⟩)
    (hgood : ∀ index a b, (∃ cs, E.input.rest? a = some cs) → rule index a b →
      good ⟨.rule index, a, b⟩)
    (hstop : ∀ index a b, (∃ cs, E.input.rest? a = some cs) → rule index a b →
      ∃ cs, E.input.rest? b = some cs)
    (hrule : ∀ index a b, ofRule E.input g rule index a b → rule index a b) (fuel index : Nat) :
    Matches (machine E).watched (watching (machine E) E.input (Remembers rule) good)
      (ruleNoting E g fuel index) (rule index) := by
  induction fuel generalizing index with
  | zero => exact matches_forever
  | succ fuel ih =>
    refine Matches.noting ?_ (hgood index)
    have hbody := (bodyNoting_matches machine_keeps ih hnode fuel index).weaken (hrule index)
    rintro ⟨s, notes⟩ ⟨hs, hpos, hnotes⟩
    obtain ⟨hentered, hstart⟩ := memo_entered (E := E) s index
    have hpos' : ∃ cs, E.input.rest? (s.entered E index).pos = some cs := by rwa [hstart]
    have hinside := hbody ({ s.entered E index with currentRule := some index }, notes)
      ⟨hs.congr hentered, hpos', hnotes⟩
    refine ⟨fun v u hrun => ?_, fun e u hrun => ?_⟩
    · have hreached {t : State σ} (hleft : Left (rule index) s.pos v t.pos) :
          ∃ cs, E.input.rest? t.pos = some cs := by
        by_cases hv : v.isFailed = true
        · rw [hleft.of_failed hv]
          exact hpos
        · exact hstop index _ _ hpos (hleft.of_matched hv)
      rcases watchedRule_eq_some.mp hrun with ⟨p, result, hhit, hv, rfl⟩ | ⟨-, t, hx, rfl⟩
      · cases hv
        obtain ⟨hkept, hleft⟩ := hs.recalled hhit
        exact ⟨⟨hkept, hreached hleft, hnotes⟩, hleft⟩
      · obtain ⟨⟨ht, -, hnotes'⟩, hleft⟩ := hinside.ok v t hx
        have hleft : Left (rule index) s.pos v t.1.pos := hstart ▸ hleft
        obtain ⟨hkept, hback⟩ := Remembers.left (E := E) ht hleft
        have hleft' : Left (rule index) s.pos v (State.left E s index (.ok v) t.1).pos := by
          rwa [hback]
        exact ⟨⟨hkept, hreached hleft', hnotes'⟩, hleft'⟩
    · rcases watchedRule_eq_some.mp hrun with ⟨p, result, hhit, hv, rfl⟩ | ⟨-, t, hx, rfl⟩
      · cases hv
      · exact hinside.error e t hx

end

end Peg

end PegMachine
