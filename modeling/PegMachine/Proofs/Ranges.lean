import PegMachine.Proofs.FirstSets

/-!
# Ranges keep to their bounds

A parse can be recorded: for each node and each rule that came to a result there is a note of its
offsets, its value, and the notes that were made inside of it. So what a range came to can be held
against what its element and its delimiter came to inside of it. If it is matched, its value lists
the values of as many items as its bounds allow, which follow each other in the input with
delimiters between them; if it fails, the input is left where it was.
-/

namespace PegMachine

/-- A subject came to a result. -/
structure Evaluation where
  subject : Subject
  /-- The offset it was evaluated from. -/
  start : Nat
  value : Slot
  /-- The offset it left the input at. -/
  stop : Nat
  /-- What came to a result inside of it, the last one first. -/
  inside : List Evaluation

/-! ## Rows of items -/

/-- Among some evaluations there is one of a subject between two offsets that came to a value. -/
def Evaluated (found : List Evaluation) (subject : Subject) (v : Slot) (start stop : Nat) : Prop :=
  ∃ inside, ⟨subject, start, v, stop, inside⟩ ∈ found

/-- A delimiter was matched from one offset to another, or there is no delimiter and the offsets are
the same. -/
def Gap (found : List Evaluation) : Option NodeId → Nat → Nat → Prop
  | none, a, b => a = b
  | some delimiter, a, b =>
    ∃ v, ¬v.isFailed = true ∧ Evaluated found (.node delimiter) v a b

/-- Items were matched one after the other with delimiters between them, from an offset on. The row
has the values of the items and ends where the last one does. -/
inductive Row (found : List Evaluation) (e : NodeId) (delimiter : Option NodeId) (start : Nat) :
    List Value → Nat → Prop
  | nil : Row found e delimiter start [] start
  | first {v : Slot} {stop : Nat} (hv : ¬v.isFailed = true)
      (hitem : Evaluated found (.node e) v start stop) :
      Row found e delimiter start [v.toValue] stop
  | next {items : List Value} {a b stop : Nat} {v : Slot}
      (row : Row found e delimiter start items a) (hitems : items ≠ [])
      (hgap : Gap found delimiter a b) (hv : ¬v.isFailed = true)
      (hitem : Evaluated found (.node e) v b stop) :
      Row found e delimiter start (items ++ [v.toValue]) stop

/-- A range keeps to its bounds. One bound comes too late: a range that asks for one item and allows
none takes the item. -/
structure Evaluation.Respects (ev : Evaluation) (min : UInt32) (max : Option UInt32) (e : NodeId)
    (delimiter : Option NodeId) : Prop where
  /-- A failure leaves the input where it was. -/
  failed : ev.value.isFailed = true → ev.stop = ev.start
  /-- A match is a row of items, neither too few nor too many. -/
  matched : ¬ev.value.isFailed = true → ∃ items, ev.value = .value (.array items) ∧
    min.toNat ≤ items.length ∧ ((min = 1 → max ≠ some 0) → ∀ m ∈ max, items.length ≤ m.toNat) ∧
      Row ev.inside e delimiter ev.start items ev.stop

/-- If a node was evaluated that is a range, it keeps to its bounds. -/
def Evaluation.InBounds (g : Grammar) (ev : Evaluation) : Prop :=
  ∀ id min max e delimiter, ev.subject = .node id → g.shape id = .range min max e delimiter →
    ev.Respects min max e delimiter

section

variable {found found' : List Evaluation} {subject : Subject} {e : NodeId}
  {delimiter : Option NodeId} {start stop : Nat} {v : Slot} {items : List Value}

theorem Evaluated.mono (h : Evaluated found subject v start stop) (hsub : found ⊆ found') :
    Evaluated found' subject v start stop := by
  obtain ⟨inside, hmem⟩ := h
  exact ⟨inside, hsub hmem⟩

theorem Gap.mono (h : Gap found delimiter start stop) (hsub : found ⊆ found') :
    Gap found' delimiter start stop := by
  cases delimiter with
  | none => exact h
  | some d =>
    obtain ⟨v, hv, hd⟩ := h
    exact ⟨v, hv, hd.mono hsub⟩

theorem Row.mono (h : Row found e delimiter start items stop) (hsub : found ⊆ found') :
    Row found' e delimiter start items stop := by
  induction h with
  | nil => exact .nil
  | first hv hitem => exact .first hv (hitem.mono hsub)
  | next _ hitems hgap hv hitem ih => exact .next ih hitems (hgap.mono hsub) hv (hitem.mono hsub)

end

namespace Peg

open Peg.Language

variable {S σ : Type}

/-- Who records all results. -/
def recorder (O : Ops S) : Observer S Evaluation := fun subject s v t =>
  [⟨subject, O.pos s.1, v, O.pos t.1, t.2.take (t.2.length - s.2.length)⟩]

/-- What holds all along a parse that is recorded: no note is lost, and all are good. -/
def recording (I : S → Prop) (good : Evaluation → Prop) (base : List Evaluation) :
    Invariant (S × List Evaluation) :=
  (Invariant.of I).beside fun notes => base <:+ notes ∧ ∀ ev ∈ notes, good ev

/-- A run keeps what holds all along, and leaves the input as a language says that may depend on the
value and on what was noted in between. -/
def Adds (O : Ops S) (I : S → Prop) (good : Evaluation → Prop)
    (x : Run (S × List Evaluation) Slot) (L : Slot → List Evaluation → Language) : Prop :=
  ∀ base s, recording I good base s → Ends (recording I good base).ended x s fun v t =>
    recording I good base t ∧ ∃ new, t.2 = new ++ s.2 ∧ Left (L v new) (O.pos s.1) v (O.pos t.1)

section

variable {O : Ops S} {I : S → Prop} {good : Evaluation → Prop} {base : List Evaluation}
  {x d : Run (S × List Evaluation) Slot} {L M : Slot → List Evaluation → Language} {N : Language}
  {subject : Subject} {e : NodeId} {delimiter : Option NodeId}

theorem adds_of_matches
    (h : ∀ base, Matches (O.observed Evaluation) (recording I good base) x N) :
    Adds O I good x fun _ _ => N := by
  intro base s hs
  have hends := h base s hs
  refine ⟨fun v t hrun => ?_, hends.error⟩
  obtain ⟨ht, hleft⟩ := hends.ok v t hrun
  -- The notes at the start are not lost either.
  have hself : recording I good s.2 s := ⟨hs.1, List.suffix_refl s.2, hs.2.2⟩
  obtain ⟨⟨-, ⟨new, hnew⟩, -⟩, -⟩ := (h s.2 s hself).ok v t hrun
  exact ⟨ht, new, hnew.symm, hleft⟩

theorem Adds.matches (h : Adds O I good x fun _ _ => N) (base : List Evaluation) :
    Matches (O.observed Evaluation) (recording I good base) x N := by
  intro s hs
  exact (h base s hs).mono fun v t ⟨ht, _, _, hleft⟩ => ⟨ht, hleft⟩

theorem Adds.weaken (h : Adds O I good x L) (himp : ∀ v new a b, L v new a b → M v new a b) :
    Adds O I good x M := by
  intro base s hs
  exact (h base s hs).mono fun v t ⟨ht, new, hnew, hleft⟩ =>
    ⟨ht, new, hnew, hleft.weaken (himp v new _ _)⟩

theorem Adds.and (h : Adds O I good x L) (h' : Adds O I good x M) :
    Adds O I good x fun v new a b => L v new a b ∧ M v new a b := by
  intro base s hs
  refine ⟨fun v t hrun => ?_, (h base s hs).error⟩
  obtain ⟨ht, new, hnew, hleft⟩ := (h base s hs).ok v t hrun
  obtain ⟨-, new', hnew', hleft'⟩ := (h' base s hs).ok v t hrun
  obtain rfl : new = new' := List.append_cancel_right (hnew.symm.trans hnew')
  refine ⟨ht, new, hnew, ?_⟩
  by_cases hv : v.isFailed = true
  · rw [Left, if_pos hv]
    exact hleft.of_failed hv
  · exact .matched hv ⟨hleft.of_matched hv, hleft'.of_matched hv⟩

/-- What is recorded adds a note, which has in it what was added before. -/
theorem Adds.observing (h : Adds O I good x L) (subject : Subject)
    (hgood : ∀ v new a b, Left (L v new) a v b → good ⟨subject, a, v, b, new⟩) :
    Adds O I good (Peg.observing (recorder O) subject x) fun v new a b =>
      (∃ inside, L v inside a b) ∧ Evaluated new subject v a b := by
  intro base s hs
  have hends := h base s hs
  refine ⟨fun v r hrun => ?_, fun err r hrun => ?_⟩
  · obtain ⟨t, ht, rfl⟩ := observing_eq_some.mp hrun
    obtain ⟨⟨hI, hbase, hnotes⟩, new, hnew, hleft⟩ := hends.ok v t ht
    have hinside : t.2.take (t.2.length - s.2.length) = new := by simp [hnew]
    rw [observed, recorder, hinside]
    have hnote := hgood v new _ _ hleft
    refine ⟨⟨hI, hbase.trans (List.suffix_cons _ _), List.forall_mem_cons.mpr ⟨hnote, hnotes⟩⟩,
      _ :: new, by rw [hnew]; rfl, hleft.weaken fun hL => ⟨⟨new, hL⟩, new, List.mem_cons_self⟩⟩
  · obtain ⟨t, ht, hr⟩ := observing_eq_some.mp hrun
    rw [hr]
    exact hends.error err t ht

/-! ## Ranges -/

/-- An item behind a delimiter. -/
def further (e : NodeId) (delimiter : Option NodeId) (v : Slot) (new : List Evaluation) :
    Language := fun a c => ∃ b, Gap new delimiter a b ∧ Evaluated new (.node e) v b c

/-- Some items in a row, as a list of values. -/
def itemized (min : UInt32) (max : Option UInt32) (e : NodeId) (delimiter : Option NodeId)
    (v : Slot) (new : List Evaluation) : Language := fun a b =>
  ∃ items, v = .value (.array items) ∧ min.toNat ≤ items.length ∧
    ((min = 1 → max ≠ some 0) → ∀ m ∈ max, items.length ≤ m.toNat) ∧ Row new e delimiter a items b

theorem respects_of_itemized {min : UInt32} {max : Option UInt32} {v : Slot} {start stop : Nat}
    {inside : List Evaluation}
    (h : Left (itemized min max e delimiter v inside) start v stop) :
    Evaluation.Respects ⟨subject, start, v, stop, inside⟩ min max e delimiter :=
  ⟨h.of_failed, h.of_matched⟩

section

variable (hO : O.Keeps (.of I))

include hO

/-- Giving a match up leaves the notes as they are. -/
theorem ends_retreat_noted {s t : S × List Evaluation} (ht : recording I good base t)
    {new : List Evaluation} (hnew : t.2 = new ++ s.2) :
    Ends (recording I good base).ended (retreat (O.observed Evaluation) (O.pos s.1)) t fun v r =>
      recording I good base r ∧ ∃ new, r.2 = new ++ s.2 ∧
        Left (L v new) (O.pos s.1) v (O.pos r.1) := by
  obtain ⟨hthere, hpos⟩ := hO.goTo (O.pos s.1) t.1 trivial ht.1
  obtain ⟨hback, hpos'⟩ := hO.discard _ hthere
  exact .of_eq (retreat_apply _ _ t) ⟨⟨hback, ht.2⟩, new, hnew, .failed (hpos'.trans hpos)⟩

/-- A delimiter is given back if no item follows. -/
theorem Adds.delimited {id : NodeId} (hd : Adds O I good d fun v new => Evaluated new (.node id) v)
    (hx : Adds O I good x fun v new => Evaluated new (.node e) v) :
    Adds O I good (delimited (O.observed Evaluation) d x) (further e (some id)) := by
  intro base s hs
  -- Whether the delimiter matches, and if it does whether the item behind it does.
  refine ends_here_bind ((hd base s hs).bind fun v u ⟨hu, new, hnew, hleft⟩ => Ends.ite
    (fun hv => .pure ⟨hu, new, hnew, ?_⟩) fun hv =>
      (hx base u hu).bind fun w t ⟨ht, more, hmore, hleft'⟩ => ?_)
  · rw [Left, if_pos hv]
    exact hleft.of_failed hv
  · have hall : t.2 = (more ++ new) ++ s.2 := by rw [hmore, hnew, List.append_assoc]
    refine Ends.ite (fun _ => ends_retreat_noted hO ht hall) fun hw =>
      .pure ⟨ht, more ++ new, hall, .matched hw ?_⟩
    have hdelimiter := (hleft.of_matched hv).mono (List.subset_append_right more new)
    have hitem := (hleft'.of_matched hw).mono (List.subset_append_left more new)
    exact ⟨_, ⟨v, hv, hdelimiter⟩, hitem⟩

/-- No item is looked for when there are enough. -/
theorem Adds.bounded (hx : Adds O I good x L) (max : Option UInt32) (values : List Value) :
    Adds O I good (bounded (O.observed Evaluation) max x values) fun v new a b =>
      (∀ m ∈ max, values.length < m.toNat) ∧ L v new a b := by
  intro base s hs
  cases max with
  | none => exact hx.weaken (fun _ _ _ _ h => ⟨nofun, h⟩) base s hs
  | some max =>
    refine Ends.ite (fun _ => ?_) fun hlt => ?_
    · obtain ⟨hback, hpos⟩ := hO.discard s.1 hs.1
      exact .of_eq (discard_apply _ s) ⟨⟨hback, hs.2⟩, [], rfl, .failed hpos⟩
    · refine hx.weaken (fun _ _ _ _ h => ⟨?_, h⟩) base s hs
      rintro m ⟨⟩
      exact Nat.lt_of_not_le hlt

end

/-- The items when the last attempt is counted in. -/
def counted (a : List Value × Slot) : List Value :=
  if a.2.isFailed then a.1 else a.1 ++ [a.2.toValue]

theorem counted_of_failed {a : List Value × Slot} (h : a.2.isFailed = true) : counted a = a.1 :=
  if_pos h

theorem counted_of_matched {a : List Value × Slot} (h : ¬a.2.isFailed = true) :
    counted a = a.1 ++ [a.2.toValue] := if_neg h

/-- Since a repetition began, some items were found in a row. There are no more than are allowed,
unless there is only the one that it began with. -/
def Collected (O : Ops S) (I : S → Prop) (good : Evaluation → Prop) (base notes : List Evaluation)
    (e : NodeId) (delimiter : Option NodeId) (max : Option UInt32) (start : Nat)
    (values : List Value) (s : S × List Evaluation) : Prop :=
  recording I good base s ∧ ∃ new, s.2 = new ++ notes ∧
    Row new e delimiter start values (O.pos s.1) ∧
    (values.length ≤ 1 ∨ ∀ m ∈ max, values.length ≤ m.toNat)

section

variable {notes new : List Evaluation} {max : Option UInt32} {start : Nat}
  {s t : S × List Evaluation}

theorem collected_first {first : Slot} (hs : recording I good base s) (hnew : s.2 = new ++ notes)
    (hfirst : Left (Evaluated new (.node e) first) start first (O.pos s.1)) :
    Collected O I good base notes e delimiter max start (counted ([], first)) s := by
  refine ⟨hs, new, hnew, ?_⟩
  by_cases hv : first.isFailed = true
  · rw [counted_of_failed hv, hfirst.of_failed hv]
    exact ⟨.nil, .inl (Nat.zero_le 1)⟩
  · rw [counted_of_matched hv]
    exact ⟨.first hv (hfirst.of_matched hv), .inl le_rfl⟩

/-- One more attempt is made only where one more item is allowed. -/
theorem Collected.attempt {values : List Value} {v : Slot} {more : List Evaluation}
    (h : Collected O I good base notes e delimiter max start values s) (hvalues : values ≠ [])
    (ht : recording I good base t) (hmore : t.2 = more ++ s.2)
    (hleft : Left (fun a b => (∀ m ∈ max, values.length < m.toNat) ∧ further e delimiter v more a b)
      (O.pos s.1) v (O.pos t.1)) :
    Collected O I good base notes e delimiter max start (counted (values, v)) t := by
  obtain ⟨-, new, hnew, hrow, hlength⟩ := h
  refine ⟨ht, more ++ new, by rw [hmore, hnew, List.append_assoc], ?_⟩
  have hrow' := hrow.mono (List.subset_append_right more new)
  by_cases hv : v.isFailed = true
  · rw [counted_of_failed hv, hleft.of_failed hv]
    exact ⟨hrow', hlength⟩
  · obtain ⟨hallowed, b, hgap, hitem⟩ := hleft.of_matched hv
    have hsub := List.subset_append_left more new
    rw [counted_of_matched hv, List.length_append]
    exact ⟨hrow'.next hvalues (hgap.mono hsub) hv (hitem.mono hsub), .inr hallowed⟩

/-- A repetition collects items in a row, and stops in time unless that was after the first one. -/
theorem ends_row {again : List Value → Run (S × List Evaluation) Slot}
    (hagain : ∀ values, Adds O I good (again values) fun v new a b =>
      (∀ m ∈ max, values.length < m.toNat) ∧ further e delimiter v new a b)
    (rounds : Nat) {first : Slot} (hs : recording I good base s) (hnew : s.2 = new ++ notes)
    (hfirst : Left (Evaluated new (.node e) first) start first (O.pos s.1)) :
    Ends (recording I good base).ended (items rounds again first) s
      (Collected O I good base notes e delimiter max start) := by
  -- The last attempt is part of the row if it was no failure, but not yet among the values.
  refine Ends.bind (Ends.repeatWhile
    (J := fun a => Collected O I good base notes e delimiter max start (counted a)) ?_ rounds
    ([], first) (collected_first hs hnew hfirst)) ?_
  · rintro a u hu hgo
    rw [counted_of_matched (by simpa [mayFollow] using hgo)] at hu
    refine (hagain _ base u hu.1).bind ?_
    rintro v w ⟨hw, more, hmore, hleft⟩
    exact .pure (hu.attempt (by simp) hw hmore hleft)
  · rintro a u ⟨hu, hstop⟩
    rw [counted_of_failed (by simpa [mayFollow] using hstop)] at hu
    exact .pure hu

end

/-- A range that is not empty comes to some items in a row. -/
theorem Adds.range (hO : O.Keeps (.of I)) {y : Run (S × List Evaluation) Slot} {min : UInt32}
    {max : Option UInt32} (hempty : ¬(max = some 0 ∧ min = 0))
    (hx : Adds O I good x fun v new => Evaluated new (.node e) v)
    (hy : Adds O I good y (further e delimiter)) (rounds : Nat) :
    Adds O I good (range (O.observed Evaluation) rounds min max x y)
      (itemized min max e delimiter) := by
  intro base s hs
  refine ends_here_bind ((hx base s hs).bind fun v u ⟨hu, new, hnew, hleft⟩ =>
    (ends_row (fun values => hy.bounded hO max values) rounds hu hnew hleft).bind
      fun values t ⟨ht, new, hnew, hrow, hlength⟩ => Ends.ite
        (fun _ => ends_retreat_noted hO ht hnew) fun hmin =>
          .pure ⟨ht, new, hnew, .matched (by simp [Slot.isFailed]) ⟨values, rfl, ?_, ?_, hrow⟩⟩)
  · exact Nat.le_of_not_lt hmin
  · intro hbounds m hm
    rcases hlength with hone | hall
    · -- One item is too many only where none is allowed, and there more than one was asked for.
      by_cases hzero : m = 0
      · subst hzero
        have hnone : min.toNat ≠ 0 := fun h => hempty ⟨hm, UInt32.toNat_inj.mp h⟩
        have hone' : min.toNat ≠ 1 := fun h => hbounds (UInt32.toNat_inj.mp h) hm
        omega
      · have hpos : m.toNat ≠ 0 := fun h => hzero (UInt32.toNat_inj.mp h)
        omega
    · exact hall m hm

/-! ## Expressions -/

section

variable (hO : O.Keeps (.of I)) {input : Input} {g : Grammar}
  {invoke : Nat → Run (S × List Evaluation) Slot}

include hO

/-- A range comes to some items in a row if its element and its delimiter are recorded. -/
theorem adds_level_range {ev : NodeId → Env → Option String → Run (S × List Evaluation) Slot}
    {rounds : Nat} {id : NodeId} {env : Env} {action? : Option String} {min : UInt32}
    {max : Option UInt32} (hshape : g.shape id = .range min max e delimiter)
    (hev : ∀ e, Adds O I good (ev e [] none) fun v new => Evaluated new (.node e) v) :
    Adds O I good (level (O.observed Evaluation) input g invoke rounds ev id env action?)
      (itemized min max e delimiter) := by
  simp only [level, hshape]
  split
  · next hempty =>
    intro base s hs
    refine .pure ⟨hs, [], rfl, .matched (by simp [Slot.isFailed, Slot.emptyArray]) ?_⟩
    exact ⟨[], rfl, by simp [hempty.2], fun _ m _ => Nat.zero_le _, .nil⟩
  · next hempty =>
    refine Adds.range hO hempty (hev e) ?_ rounds
    cases delimiter with
    | none => exact (hev e).weaken fun _ _ a _ h => ⟨a, rfl, h⟩
    | some d => exact (hev d).delimited hO (hev e)

/-- What a node comes to is recorded, and if the node is a range it keeps to its bounds. -/
theorem adds_evalObserving
    (hinvoke : ∀ index, Adds O I (·.InBounds g) (invoke index) fun _ _ _ _ => True)
    (rounds depth : Nat) (id : NodeId) (env : Env) (action? : Option String) :
    Adds O I (·.InBounds g)
      (evalObserving O (recorder O) input g invoke rounds depth id env action?)
      fun v new a b => ofNode input g (fun _ _ _ => True) depth id a b ∧
        Evaluated new (.node id) v a b := by
  -- The language of a node is carried along for the shapes that are no ranges: it is what is asked
  -- of their children.
  induction depth generalizing id env action? with
  | zero => exact fun _ _ _ => .of_none rfl
  | succ depth ih =>
    let below := evalObserving O (recorder O) input g invoke rounds depth
    let x := level (O.observed Evaluation) input g invoke rounds below id env action?
    have hlevel : Adds O I (·.InBounds g) x fun _ _ =>
        ofNode input g (fun _ _ _ => True) (depth + 1) id := by
      refine adds_of_matches fun base => level_matches (hO.observed _)
        (fun _ _ _ _ _ => trivial) (fun index _ => (hinvoke index).matches base)
        (fun e _ env action? => ?_) rounds env action?
      exact ((ih e env action?).weaken fun _ _ _ _ h => h.1).matches base
    have hrange : Adds O I (·.InBounds g) x fun v new a b =>
        ∀ min max e delimiter, g.shape id = .range min max e delimiter →
          itemized min max e delimiter v new a b := by
      by_cases hshape : ∃ min max e delimiter, g.shape id = .range min max e delimiter
      · obtain ⟨min, max, e, delimiter, hshape⟩ := hshape
        have hchildren (e : NodeId) := (ih e [] none).weaken fun _ _ _ _ h => h.2
        refine (adds_level_range hO hshape hchildren).weaken
          fun v new a b hitems min' max' e' delimiter' hshape' => ?_
        rw [hshape] at hshape'
        cases hshape'
        exact hitems
      · refine hlevel.weaken fun v new a b _ min max e delimiter h => ?_
        exact absurd ⟨min, max, e, delimiter, h⟩ hshape
    refine ((hlevel.and hrange).observing (.node id) fun v new a b hleft => ?_).weaken
      fun v new a b ⟨⟨_, h, _⟩, hnoted⟩ => ⟨h, hnoted⟩
    rintro _ min max e delimiter ⟨⟩ hshape
    exact respects_of_itemized (hleft.weaken fun h => h.2 min max e delimiter hshape)

theorem adds_bodyObserving
    (hinvoke : ∀ index, Adds O I (·.InBounds g) (invoke index) fun _ _ _ _ => True)
    (rounds index : Nat) :
    Adds O I (·.InBounds g) (bodyObserving O (recorder O) input g invoke rounds index)
      fun _ _ _ _ => True := by
  rw [bodyObserving]
  cases g.rules[index]? with
  | none => exact fun base s hs => .pure ⟨hs, [], rfl, .failed rfl⟩
  | some r =>
    exact (adds_evalObserving hO hinvoke rounds g.depthBound r.expression [] none).weaken
      fun _ _ _ _ _ => trivial

end

end

/-! ## Rules -/

section

variable {E : Setting σ} {g : Grammar} {good : Evaluation → Prop}

/-- What is invoked goes on from what it remembers, or adds what its body adds. -/
theorem Adds.observedRule {x : Run (State σ × List Evaluation) Slot}
    (hx : Adds (machine E) (Remembers fun _ _ _ => True) good x fun _ _ _ _ => True)
    (index : Nat) :
    Adds (machine E) (Remembers fun _ _ _ => True) good (Peg.observedRule E index x)
      fun _ _ _ _ => True := by
  rintro base ⟨s, notes⟩ ⟨(hs : Remembers (fun _ _ _ => True) s), hnotes⟩
  obtain ⟨hentered, hstart⟩ := memo_entered (E := E) s index
  have hinside := hx base ({ s.entered E index with currentRule := some index }, notes)
    ⟨hs.congr hentered, hnotes⟩
  refine ⟨fun v r hrun => ?_, fun e r hrun => ?_⟩
  · rcases observedRule_eq_some.mp hrun with ⟨p, result, hhit, hv, rfl⟩ | ⟨-, t, hbody, rfl⟩
    · -- Nothing is evaluated where an outcome is recalled, so no notes are added.
      cases hv
      obtain ⟨hkept, hleft⟩ := hs.recalled hhit
      exact ⟨⟨hkept, hnotes⟩, [], rfl, hleft⟩
    · obtain ⟨⟨ht, hnotes'⟩, new, hnew, hleft⟩ := hinside.ok v t hbody
      have hleft : Left (fun _ _ => True) s.pos v t.1.pos := hstart ▸ hleft
      obtain ⟨hkept, hback⟩ := Remembers.left (L := fun _ _ _ => True) (E := E) ht hleft
      refine ⟨⟨hkept, hnotes'⟩, new, hnew, ?_⟩
      rw [machine_pos, machine_pos, hback]
      exact hleft
  · rcases observedRule_eq_some.mp hrun with ⟨p, result, hhit, hv, rfl⟩ | ⟨-, t, hbody, rfl⟩
    · cases hv
    · exact hinside.error e t hbody

/-- All that comes to a result in a parse is recorded, and ranges keep to their bounds. -/
theorem adds_ruleObserving (fuel index : Nat) :
    Adds (machine E) (Remembers fun _ _ _ => True) (·.InBounds g)
      (ruleObserving E (recorder (machine E)) g fuel index) fun _ _ _ _ => True := by
  induction fuel generalizing index with
  | zero => exact fun _ _ _ => .of_none rfl
  | succ fuel ih =>
    have hbody : Adds (machine E) _ _
        (bodyObserving (machine E) (recorder (machine E)) E.input g _ fuel index) _ :=
      adds_bodyObserving machine_keeps ih fuel index
    refine ((hbody.observedRule index).observing (.rule index) ?_).weaken
      fun _ _ _ _ _ => trivial
    -- Only nodes have bounds to keep to.
    exact fun _ _ _ _ _ _ _ _ _ _ h => nomatch h

end

end Peg

open Peg

/-- A recorded parse from a rule of a grammar on ends with an outcome and a state, and some
evaluations are on record then, the last one first. -/
def Parser.Records {σ : Type} (p : Parser) (g : Grammar) (handler : Handler σ) (hs : σ)
    (input : Input) (index : Nat) (o : Outcome Slot) (t : State σ) (found : List Evaluation) :
    Prop :=
  let E := p.setting handler input
  ∃ n, ruleObserving E (recorder (machine E)) g n index (E.initial p.statistics hs, []) =
    some (o, t, found)

/-- Ranges keep to their bounds in every parse: take a parser of a program that is generated for a
grammar that was compiled without errors, with memoization switched on or off in it, and any input
and handler of actions. A parse ends in the same way when it is recorded. Each evaluation of a range
that is on record then, and failed, left the input where it was. If it did not fail, its value is an
array of at least as many values as the range asks for, and no more than it allows, except where it
asks for one item and allows none. The values are those of matches of its element that were found
inside of the evaluation, the first one where the range begins, each other one behind a match of the
delimiter that begins where the item before ends, and the range ends where the last one does. -/
theorem compile_respectsRanges {g : Grammar} {options : Options} {listeners : Nat}
    {compiled : Compiled} {s : Session} (h : compile g options listeners = (.ok compiled, s))
    {P : Program} (hP : s.program = some P) (hfit : P.Addressable) {switch : Bool}
    {flags : Nat → Bool} {p : Parser} (hp : p.program = P.withMemo switch flags) (hsound : p.Sound)
    {σ : Type} (handler : Handler σ) (hs : σ) (input : Input) (index : Nat) (o : Outcome Slot)
    (t : State σ) :
    ((∃ n, p.runRule (p.setting handler input) n index
        ((p.setting handler input).initial p.statistics hs) = some (o, t)) ↔
      ∃ found, p.Records s.grammar handler hs input index o t found) ∧
    ∀ found, p.Records s.grammar handler hs input index o t found →
      ∀ ev ∈ found, ev.InBounds s.grammar := by
  obtain ⟨_, _, _, haccepted⟩ := compile_eq_ok h
  obtain ⟨code, trace, hg, hprogram⟩ := haccepted.program
  have hcarries : P.Carries code := by
    rw [hP] at hprogram
    cases hprogram
    exact Generated.program_carries hg trace
  have hruns : p.Runs s.facts s.grammar code :=
    ⟨hsound, hp ▸ hcarries.withMemo, hp ▸ hfit.withMemo⟩
  let E := p.setting handler input
  constructor
  · rw [hruns.runRule_iff hg haccepted.resolved (E := E) rfl,
      ruleObserving_iff (recorder (machine E)) []]
    exact exists_comm
  · rintro found ⟨n, hrun⟩
    have hstart : Remembers (fun _ _ _ => True) (E.initial p.statistics hs) :=
      remembers_initial _ _ _
    have hends := adds_ruleObserving (E := E) (g := s.grammar) n index []
      (E.initial p.statistics hs, []) ⟨hstart, List.suffix_rfl, nofun⟩
    cases o with
    | ok v =>
      obtain ⟨⟨-, -, hgood⟩, -⟩ := hends.ok v _ hrun
      exact hgood
    | error e =>
      obtain ⟨-, -, hgood⟩ := hends.error e _ hrun
      exact hgood

/-- Of two letters, with a delimiter in front of nothing, the letters make a range of two. -/
theorem separated_respectsRanges :
    ∃ found : List Evaluation,
      (∃ ev ∈ found, ev.subject = .node 2 ∧ ev.start = 0 ∧ ev.value.arrayLength = 2 ∧ ev.stop = 3) ∧
      ∀ ev ∈ found, ev.InBounds (compile separated {} 0).2.grammar := by
  let p := Parser.interpreted (separatedProgram.withMemo true fun _ => true)
  let E := p.setting (.none : Handler Unit) (.ofString "a,a,")
  have hends : ((ruleObserving E (recorder (machine E)) separated 60 0
      (E.initial p.statistics (), [])).any fun r => r.2.2.any fun ev =>
        decide (ev.subject = .node 2) && ev.start == 0 && ev.value.arrayLength == 2 &&
          ev.stop == 3) = true := by decide +kernel
  obtain ⟨⟨o, t, found⟩, hrun, hfound⟩ := (Option.any_eq_true _ _).mp hends
  obtain ⟨ev, hev, hrange⟩ := List.any_eq_true.mp hfound
  obtain ⟨compiled, hcompiled, hprogram, hgrammar⟩ := separated_compiled
  have hfit : separatedProgram.Addressable := by constructor <;> decide
  have hp : p.program = separatedProgram.withMemo true fun _ => true := rfl
  obtain ⟨-, hrespects⟩ := compile_respectsRanges hcompiled hprogram hfit hp
    (Parser.sound_interpreted _) .none () (.ofString "a,a,") 0 o t
  refine ⟨found, ⟨ev, hev, ?_⟩, hrespects found ⟨60, by rw [hgrammar]; exact hrun⟩⟩
  simpa [and_assoc] using hrange

/-- A grammar of one letter that is asked for and not allowed. -/
def overfull : Grammar where
  rules := [{ name := "start", expression := 1 }]
  nodes := #[⟨.literal "a" false, none⟩, ⟨.range 1 (some 0) 0 none, none⟩]

/-- Such a range takes the letter all the same. -/
example :
    let s := (compile overfull {} 0).2
    let p := Parser.interpreted (s.program.getD default)
    let E := p.setting (.none : Handler Unit) (.ofString "a")
    (ruleObserving E (recorder (machine E)) s.grammar 9 0 (E.initial p.statistics (), [])).any
      (fun r => r.2.2.any fun ev =>
        decide (ev.subject = .node 1) && ev.value.arrayLength == 1) = true := by decide +kernel

end PegMachine
