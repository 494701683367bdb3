import PegMachine.Proofs.Noting

/-!
# Who takes the first character

A match that takes something has a terminal that took its first character. It is read off the notes
of a watched parse: from one note to the next it is known for all matches before. What a node
consists of is noted before the node is, and a parse that came back to an offset and left it again
leaves it with the latest match there, so that match tells who took the first character.
-/

namespace PegMachine

/-- Terminals take text from the input themselves. -/
def Shape.isTerminal : Shape → Bool
  | .literal .. | .charClass .. | .regex .. | .any => true
  | _ => false

/-- The terminal that took the first character of the latest match at an offset that took
something, given the matches so far and their terminals. -/
def takerAt? (p : Nat) (known : List (Matched × Option NodeId)) : Option NodeId :=
  (known.find? fun e => e.1.start = p ∧ p < e.1.stop).bind (·.2)

/-- The terminal that took the first character of what was matched, given the matches before it and
their terminals. What a rule matched, be it now or when the outcome was kept that is recalled, was
matched by its expression before. -/
def firstTaker? (g : Grammar) (m : Matched) (known : List (Matched × Option NodeId)) :
    Option NodeId :=
  match m.subject with
  | .node id => if (g.shape id).isTerminal then some id else takerAt? m.start known
  | .rule index => (g.rules[index]?).bind fun r =>
      (known.find? fun e => e.1 = ⟨.node r.expression, m.start, m.stop⟩).bind (·.2)

/-- All matches, the latest one first, with the terminals that took their first characters. -/
def takers (g : Grammar) : List Matched → List (Matched × Option NodeId)
  | [] => []
  | m :: older => (m, firstTaker? g m (takers g older)) :: takers g older

section

variable {g : Grammar} {m : Matched} {notes old added : List Matched} {p : Nat}

/-- Every match is listed. -/
theorem map_takers (g : Grammar) (notes : List Matched) : (takers g notes).map (·.1) = notes := by
  induction notes with
  | nil => rfl
  | cons m notes ih => rw [takers, List.map_cons, ih]

/-- A match that was noted can be looked up. -/
theorem find?_takers (h : m ∈ notes) :
    ∃ e, (takers g notes).find? (fun e => e.1 = m) = some e ∧ e ∈ takers g notes ∧ e.1 = m := by
  rw [← map_takers g notes] at h
  obtain ⟨e, he, rfl⟩ := List.mem_map.mp h
  have hsome : ((takers g notes).find? fun e' => e'.1 = e.1).isSome = true :=
    List.find?_isSome.mpr ⟨e, he, by simp⟩
  obtain ⟨e', he'⟩ := Option.isSome_iff_exists.mp hsome
  exact ⟨e', he', List.mem_of_find?_eq_some he', by simpa using List.find?_some he'⟩

/-- Who took the first character of a match is a terminal that matched where that match begins. -/
theorem exists_match_of_takers {e : Matched × Option NodeId} (he : e ∈ takers g notes)
    (hlt : e.1.start < e.1.stop) {taker : NodeId} (htaker : e.2 = some taker) :
    (g.shape taker).isTerminal = true ∧
      ∃ stop, e.1.start < stop ∧ ⟨.node taker, e.1.start, stop⟩ ∈ notes := by
  induction notes generalizing e with
  | nil => cases he
  | cons m older ih =>
    -- Whoever is taken over from a match before is found where that one began, which is here.
    have hbefore {e' : Matched × Option NodeId} (he' : e' ∈ takers g older)
        (hstart : e'.1.start = e.1.start) (hlt' : e'.1.start < e'.1.stop)
        (htaker' : e'.2 = some taker) : (g.shape taker).isTerminal = true ∧
          ∃ stop, e.1.start < stop ∧ ⟨.node taker, e.1.start, stop⟩ ∈ m :: older := by
      obtain ⟨hterminal, stop, hstop, hmem⟩ := ih he' hlt' htaker'
      rw [hstart] at hstop hmem
      exact ⟨hterminal, stop, hstop, List.mem_cons_of_mem _ hmem⟩
    rcases List.mem_cons.mp he with rfl | he
    · obtain ⟨subject, start, stop⟩ := m
      cases subject with
      | node id =>
        simp only [firstTaker?] at htaker
        split at htaker
        · next hterminal =>
          cases htaker
          exact ⟨hterminal, stop, hlt, List.mem_cons_self⟩
        · obtain ⟨e', hfind, htaker'⟩ := Option.bind_eq_some_iff.mp htaker
          have hfound : e'.1.start = start ∧ start < e'.1.stop := by
            simpa using List.find?_some hfind
          exact hbefore (List.mem_of_find?_eq_some hfind) hfound.1
            (hfound.1.trans_lt hfound.2) htaker'
      | rule index =>
        obtain ⟨r, -, htaker⟩ := Option.bind_eq_some_iff.mp htaker
        obtain ⟨e', hfind, htaker'⟩ := Option.bind_eq_some_iff.mp htaker
        have hfound : e'.1 = ⟨.node r.expression, start, stop⟩ := by
          simpa using List.find?_some hfind
        exact hbefore (List.mem_of_find?_eq_some hfind) (by rw [hfound]) (by rw [hfound]; exact hlt)
          htaker'
    · exact hbefore he rfl hlt htaker

theorem takerAt?_cons_self (h : m.start < m.stop) (id? : Option NodeId)
    (known : List (Matched × Option NodeId)) :
    takerAt? m.start ((m, id?) :: known) = id? := by
  simp [takerAt?, h]

/-- Matches further on make no difference. -/
theorem takerAt?_append (h : ∀ m ∈ added, p < m.start) :
    takerAt? p (takers g (added ++ old)) = takerAt? p (takers g old) := by
  induction added with
  | nil => rfl
  | cons m added ih =>
    have hne : m.start ≠ p := (h m List.mem_cons_self).ne'
    rw [← ih fun m' hm' => h m' (List.mem_cons_of_mem _ hm'), List.cons_append, takers]
    simp [takerAt?, hne]

end

namespace Peg

open Peg.Language

/-! ## From place to place -/

/-- Where a watched parse is: an offset, and the notes so far. -/
abbrev Place := Nat × List Matched

/-- A watched parse got from one place to another one that is not before it, and what it noted on
the way are matches from the former offset on. -/
structure Onward (a b : Place) : Prop where
  le : a.1 ≤ b.1
  noted : ∃ added, b.2 = added ++ a.2 ∧ ∀ m ∈ added, a.1 ≤ m.start

/-- If the parse got further, one of some terminals took the character at the former offset. -/
structure Reached (g : Grammar) (F : NodeId → Prop) (a b : Place) : Prop extends Onward a b where
  taken : a.1 < b.1 → ∃ id, takerAt? a.1 (takers g b.2) = some id ∧ F id

section

variable {g : Grammar} {F K : NodeId → Prop} {a b c : Place}

theorem Onward.refl (a : Place) : Onward a a := ⟨Nat.le_refl _, [], rfl, nofun⟩

theorem Onward.trans (h : Onward a b) (h' : Onward b c) : Onward a c := by
  obtain ⟨added, hb, hadded⟩ := h.noted
  obtain ⟨added', hc, hadded'⟩ := h'.noted
  refine ⟨h.le.trans h'.le, added' ++ added, ?_, fun m hm => ?_⟩
  · rw [hc, hb, List.append_assoc]
  · rcases List.mem_append.mp hm with hm | hm
    · exact h.le.trans (hadded' m hm)
    · exact hadded m hm

/-- Back at the first offset, nobody took anything. -/
theorem Onward.back (h : Onward a b) : Reached g F a (a.1, b.2) :=
  ⟨⟨Nat.le_refl _, h.noted⟩, fun hlt => absurd hlt (Nat.lt_irrefl _)⟩

/-- A match is noted of which it is known who took its first character. -/
theorem Onward.note {subject : Subject} (h : Onward a b)
    (htaker : a.1 < b.1 → ∃ id,
      firstTaker? g ⟨subject, a.1, b.1⟩ (takers g b.2) = some id ∧ F id) :
    Reached g F a (b.1, ⟨subject, a.1, b.1⟩ :: b.2) := by
  obtain ⟨added, hb, hadded⟩ := h.noted
  refine ⟨⟨h.le, _ :: added, congrArg _ hb, ?_⟩, fun hlt => ?_⟩
  · exact List.forall_mem_cons.mpr ⟨Nat.le_refl _, hadded⟩
  · obtain ⟨id, hfirst, hid⟩ := htaker hlt
    refine ⟨id, ?_, hid⟩
    rw [takers, takerAt?_cons_self (m := ⟨subject, a.1, b.1⟩) hlt]
    exact hfirst

theorem Reached.refl (a : Place) : Reached g F a a := (Onward.refl a).back

theorem Reached.weaken (h : Reached g F a b) (himp : ∀ id, F id → K id) : Reached g K a b := by
  refine ⟨h.toOnward, fun hlt => ?_⟩
  obtain ⟨id, htaker, hid⟩ := h.taken hlt
  exact ⟨id, htaker, himp id hid⟩

/-- Who takes the first character on a second way matters only if the first one led nowhere. -/
theorem Reached.andThen (h : Reached g F a b) (h' : Reached g K b c)
    (hstill : a.1 = b.1 → ∀ id, K id → F id) : Reached g F a c := by
  refine ⟨h.toOnward.trans h'.toOnward, fun hlt => ?_⟩
  rcases Nat.eq_or_lt_of_le h.le with heq | hmoved
  · obtain ⟨id, htaker, hid⟩ := h'.taken (heq ▸ hlt)
    exact ⟨id, heq.symm ▸ htaker, hstill heq id hid⟩
  · obtain ⟨id, htaker, hid⟩ := h.taken hmoved
    obtain ⟨added, hc, hadded⟩ := h'.noted
    refine ⟨id, ?_, hid⟩
    rw [hc, takerAt?_append fun m hm => hmoved.trans_le (hadded m hm)]
    exact htaker

end

/-! ## Single steps -/

variable {S : Type}

/-- Where a watched parse is in a state. -/
def Ops.place (O : Ops S) (s : S × List Matched) : Place := (O.pos s.1, s.2)

/-- Whatever an expression takes, one of some terminals takes the first character of it. -/
def Tracks (O : Ops S) (I : Invariant (S × List Matched)) (g : Grammar)
    (x : Run (S × List Matched) Slot) (F : NodeId → Prop) : Prop :=
  ∀ s, I s → Ends I.ended x s fun _ t => I t ∧ Reached g F (O.place s) (O.place t)

/-- From states for which an invariant holds, an expression leaves the input as a language says. -/
def Leaves (O : Ops S) (I : Invariant (S × List Matched)) (x : Run (S × List Matched) Slot)
    (L : Language) : Prop :=
  ∀ s v t, I s → x s = some (.ok v, t) → Left L (O.pos s.1) v (O.pos t.1)

section

variable {O : Ops S} {I : Invariant (S × List Matched)} {g : Grammar} {F K : NodeId → Prop}
  {L : Language} {x y : Run (S × List Matched) Slot} {a : Place} {s : S × List Matched}

theorem Tracks.weaken (h : Tracks O I g x F) (himp : ∀ id, F id → K id) : Tracks O I g x K :=
  fun s hs => (h s hs).mono fun _ _ ⟨ht, hreached⟩ => ⟨ht, hreached.weaken himp⟩

/-- On from a place that was reached, an expression leads to one that is reached as well. -/
theorem Tracks.ends_after (hx : Tracks O I g x K) (hs : I s) (h : Reached g F a (O.place s))
    (hstill : a.1 = O.pos s.1 → ∀ id, K id → F id) :
    Ends I.ended x s fun _ t => I t ∧ Reached g F a (O.place t) :=
  (hx s hs).mono fun _ _ ⟨ht, h'⟩ => ⟨ht, h.andThen h' hstill⟩

theorem Tracks.and_leaves (hx : Tracks O I g x F) (hl : Leaves O I x L) (hs : I s) :
    Ends I.ended x s fun v t =>
      I t ∧ Reached g F (O.place s) (O.place t) ∧ Left L (O.pos s.1) v (O.pos t.1) := by
  refine ⟨fun v t hrun => ?_, (hx s hs).error⟩
  obtain ⟨ht, h⟩ := (hx s hs).ok v t hrun
  exact ⟨ht, h, hl s v t hs hrun⟩

theorem tracks_forever : Tracks O I g .forever F := fun _ _ => .of_none rfl

theorem tracks_pure (v : Slot) : Tracks O I g (pure v) F := fun _ hs => .pure ⟨hs, .refl _⟩

variable (hO : O.watched.Keeps I)

include hO

theorem tracks_want (e : Expectation) : Tracks O I g (want O.watched e) F := fun s hs => by
  obtain ⟨ht, hpos⟩ := hO.fail e s hs
  refine .of_eq rfl ⟨ht, ?_⟩
  rw [show O.place (O.watched.fail e s) = O.place s from Prod.ext hpos rfl]
  exact .refl _

theorem tracks_discard : Tracks O I g (discard O.watched) F := fun s hs => by
  obtain ⟨ht, hpos⟩ := hO.discard s hs
  refine .of_eq rfl ⟨ht, ?_⟩
  rw [show O.place (O.watched.discard s) = O.place s from Prod.ext hpos rfl]
  exact .refl _

theorem ends_goTo_back (ha : I.offsets a.1) (hs : I s) (h : Onward a (O.place s)) :
    Ends I.ended (goTo O.watched a.1) s fun _ t => I t ∧ Reached g K a (O.place t) := by
  obtain ⟨ht, hpos⟩ := hO.goTo a.1 s ha hs
  refine .of_eq rfl ⟨ht, ?_⟩
  rw [show O.place (O.watched.goTo a.1 s) = (a.1, s.2) from Prod.ext hpos rfl]
  exact h.back

theorem ends_retreat_back (ha : I.offsets a.1) (hs : I s) (h : Onward a (O.place s)) :
    Ends I.ended (retreat O.watched a.1) s fun _ t => I t ∧ Reached g K a (O.place t) :=
  (ends_goTo_back (K := K) hO ha hs h).bind fun _ _ ⟨ht, hback⟩ =>
    (tracks_discard (F := K) hO).ends_after ht hback fun _ _ => id

/-- An action takes nothing, but may withdraw what was taken. -/
theorem ends_act_after (source : String) (ha : I.offsets a.1) (env : Env) (hs : I s)
    (h : Reached g F a (O.place s)) :
    Ends I.ended (act O.watched source a.1 env) s fun _ t =>
      I t ∧ Reached g F a (O.place t) := by
  have hnotes (o : Outcome Slot) (t : S × List Matched)
      (hrun : act O.watched source a.1 env s = some (o, t)) : t.2 = s.2 := by
    rw [act_apply, Option.some.injEq] at hrun
    exact (congrArg (·.2.2) hrun).symm
  have hends := ends_act hO source ha env hs
  refine ⟨fun v t hrun => ?_, hends.error⟩
  obtain ⟨ht, hpos⟩ := hends.ok v t hrun
  refine ⟨ht, ?_⟩
  rw [show O.place t = (if v.isFailed then a.1 else O.pos s.1, s.2) from
    Prod.ext hpos (hnotes _ t hrun)]
  split
  · exact h.back
  · exact h

/-- An action that is run where its expression begins takes nothing. -/
theorem ends_act_here_after (source : String) (env : Env) (hs : I s) :
    Ends I.ended (act O.watched source (O.pos s.1) env) s fun _ t =>
      I t ∧ Reached g F (O.place s) (O.place t) :=
  ends_act_after (a := O.place s) hO source (hO.pos s hs) env hs (.refl _)

/-- What matches everywhere without taking anything is taken by nobody. -/
theorem tracks_epsilon (input : Input) : Tracks O I g (terminal O.watched input .epsilon) F := by
  intro s hs
  have hrun : terminal O.watched input .epsilon s =
      some (.ok (.text (String.ofList [])), O.watched.goTo (O.pos s.1) s) := rfl
  obtain ⟨ht, hpos⟩ := hO.goTo (O.pos s.1) s (hO.pos s hs) hs
  refine .of_eq hrun ⟨ht, ?_⟩
  rw [show O.place (O.watched.goTo (O.pos s.1) s) = O.place s from Prod.ext hpos rfl]
  exact .refl _

theorem ends_quietly_here (hs : I s) (hx : ∀ t, I t → O.place t = O.place s →
      Ends I.ended x t fun _ u => I u ∧ Reached g F (O.place t) (O.place u)) :
    Ends I.ended (quietly O.watched x) s fun _ t =>
      I t ∧ Reached g F (O.place s) (O.place t) := by
  obtain ⟨hhush, hpos⟩ := hO.hush s hs
  have hplace : O.place (O.watched.hush s) = O.place s := Prod.ext hpos rfl
  refine Ends.quietly_of hO hs (hplace ▸ hx _ hhush hplace) fun v u hu hreached => ?_
  rwa [show O.place (O.watched.unhush s (.ok v) u) = O.place u from
    Prod.ext (hO.unhush s v u hs hu).2 rfl]

theorem Tracks.quietly (hx : Tracks O I g x F) : Tracks O I g (quietly O.watched x) F :=
  fun _ hs => ends_quietly_here hO hs fun t ht _ => hx t ht

/-! ## Composite expressions -/

theorem Tracks.named (hx : Tracks O I g x F) (name : String) :
    Tracks O I g (named O.watched name x) F := fun s hs =>
  (hx.quietly hO s hs).bind fun _ _ ⟨hu, h⟩ => Ends.ite
    (fun _ => (tracks_want hO _).ends_after hu h fun _ _ => id) fun _ => .pure ⟨hu, h⟩

omit hO in
theorem tracks_choice {f : NodeId → Run (S × List Matched) Slot} {es : List NodeId}
    (hf : ∀ e ∈ es, Tracks O I g (f e) F) : Tracks O I g (choice (es.map f)) F := by
  induction es with
  | nil => exact tracks_pure _
  | cons first rest ih =>
    have hfirst := hf first List.mem_cons_self
    have hrest := ih fun e he => hf e (List.mem_cons_of_mem _ he)
    cases rest with
    | nil => exact hfirst
    | cons second rest =>
      exact fun s hs => (hfirst s hs).bind fun _ _ ⟨hu, h⟩ => Ends.ite
        (fun _ => hrest.ends_after hu h fun _ _ => id) fun _ => .pure ⟨hu, h⟩

omit hO in
theorem Tracks.text (hx : Tracks O I g x F) (input : Input) :
    Tracks O I g (text O.watched input x) F := fun s hs =>
  ends_here_bind ((hx s hs).bind fun _ _ ⟨hu, h⟩ => Ends.ite (fun _ => .pure ⟨hu, h⟩) fun _ =>
    ends_here_bind (.pure ⟨hu, h⟩))

omit hO in
theorem Tracks.optional (hx : Tracks O I g x F) : Tracks O I g (optional x) F := fun s hs =>
  (hx s hs).bind fun _ _ ⟨hu, h⟩ => Ends.ite (fun _ => .pure ⟨hu, h⟩) fun _ => .pure ⟨hu, h⟩

theorem Leaves.quietly (hl : Leaves O I x L) (hx : Tracks O I g x F) :
    Leaves O I (Peg.quietly O.watched x) L := by
  intro s v u hs hrun
  obtain ⟨hhush, hpos⟩ := hO.hush s hs
  rw [Peg.quietly] at hrun
  cases hxs : x (O.watched.hush s) with
  | none =>
    rw [hxs] at hrun
    cases hrun
  | some r =>
    obtain ⟨o, t⟩ := r
    rw [hxs] at hrun
    cases hrun
    have hleft := hl _ v t hhush hxs
    have ht := (hO.unhush s v t hs ((hx _ hhush).ok v t hxs).1).2
    rw [show O.pos (O.watched.hush s).1 = O.pos s.1 from hpos] at hleft
    rwa [show O.pos (O.watched.unhush s (.ok v) t).1 = O.pos t.1 from ht]

/-- A predicate does not take what its expression takes. -/
theorem Tracks.predicate (hx : Tracks O I g x F) (hl : Leaves O I x L) (negative : Bool) :
    Tracks O I g (predicate O.watched negative x) K := by
  intro s hs
  have hstart : I.offsets (O.place s).1 := hO.pos s hs
  have hfailed {v : Slot} {u : S × List Matched} (hv : v.isFailed = true)
      (h : Reached g F (O.place s) (O.place u)) (hleft : Left L (O.pos s.1) v (O.pos u.1)) :
      Reached g K (O.place s) (O.place u) := by
    rw [show O.place u = ((O.place s).1, u.2) from Prod.ext (hleft.of_failed hv) rfl]
    exact h.back
  refine ends_here_bind (((hx.quietly hO).and_leaves (hl.quietly hO hx) hs).bind
    fun v u ⟨hu, h, hleft⟩ => Ends.ite (fun _ => ?_) fun _ => ?_)
  · exact Ends.ite (fun hv => .pure ⟨hu, hfailed hv h hleft⟩) fun _ =>
      ends_retreat_back (a := O.place s) hO hstart hu h.toOnward
  · exact Ends.ite (fun hv => (tracks_discard hO).ends_after hu (hfailed hv h hleft) fun _ _ => id)
      fun _ => (ends_goTo_back (a := O.place s) hO hstart hu h.toOnward).bind fun _ _ ht => .pure ht

theorem tracks_semantic (source : String) (negative : Bool) (env : Env) :
    Tracks O I g (semantic O.watched source negative env) F := by
  intro s hs
  have hact := ends_quietly_here (x := act O.watched source (O.pos s.1) env) (F := F) (g := g) hO hs
    fun t ht hplace => by
      have hpos : O.pos t.1 = O.pos s.1 := congrArg (·.1) hplace
      rw [← hpos]
      exact ends_act_here_after hO source env ht
  exact ends_here_bind (hact.bind fun _ _ ⟨hu, h⟩ => Ends.ite
    (fun _ => (tracks_discard hO).ends_after hu h fun _ _ => id) fun _ => .pure ⟨hu, h⟩)

theorem tracks_code (source : String) (env : Env) : Tracks O I g (code O.watched source env) F :=
  fun _ hs => ends_here_bind ((ends_act_here_after hO source env hs).bind fun _ _ ⟨hu, h⟩ =>
    Ends.ite (fun _ => (tracks_want hO _).ends_after hu h fun _ _ => id) fun _ => .pure ⟨hu, h⟩)

theorem Tracks.actionAround (hx : Tracks O I g x F) (e : NodeId) (source : String) (env : Env) :
    Tracks O I g (actionAround O.watched g e x source env) F := fun s hs =>
  ends_here_bind ((hx s hs).bind fun _ _ ⟨hu, h⟩ => Ends.ite (fun _ => .pure ⟨hu, h⟩) fun _ =>
    ends_act_after (a := O.place s) hO source (hO.pos s hs) _ hu h)

omit hO in
/-- What holds after a first item that matched and is kept by each further one holds after all
items. -/
theorem ends_items_of {again : List Value → Run (S × List Matched) Slot} {first : Slot}
    {J : S × List Matched → Prop}
    (hagain : first.isFailed = false → ∀ values s, J s →
      Ends I.ended (again values) s fun _ t => J t) (rounds : Nat) (h : J s) :
    Ends I.ended (items rounds again first) s fun _ t => J t := by
  -- One more item is looked for only behind one that matched, so the first one did.
  have hloop : Ends I.ended (Run.repeatWhile mayFollow (another again) rounds ([], first)) s _ :=
    Ends.repeatWhile (J := fun a t => (a.2.isFailed = false → first.isFailed = false) ∧ J t)
      (fun a t ⟨hfirst, ht⟩ hgo => by
        have hfirst := hfirst (by simpa [mayFollow] using hgo)
        exact (hagain hfirst _ t ht).bind fun _ _ hu => .pure ⟨fun _ => hfirst, hu⟩)
      rounds _ ⟨id, h⟩
  exact hloop.bind fun _ _ h => .pure h.1.2

omit hO in
theorem Tracks.ends_items (hx : Tracks O I g x F) (rounds : Nat) (first : Slot) (hs : I s)
    (h : Reached g F a (O.place s)) :
    Ends I.ended (items rounds (fun _ => x) first) s fun _ t =>
      I t ∧ Reached g F a (O.place t) :=
  ends_items_of (J := fun t => I t ∧ Reached g F a (O.place t))
    (fun _ _ _ ⟨ht, h⟩ => hx.ends_after ht h fun _ _ => id) rounds ⟨hs, h⟩

omit hO in
theorem Tracks.zeroOrMore (hx : Tracks O I g x F) (rounds : Nat) :
    Tracks O I g (zeroOrMore rounds x) F := fun s hs =>
  (hx s hs).bind fun v _ ⟨hu, h⟩ =>
    (hx.ends_items rounds v hu h).bind fun _ _ ht => .pure ht

theorem Tracks.oneOrMore (hx : Tracks O I g x F) (rounds : Nat) :
    Tracks O I g (oneOrMore O.watched rounds x) F := fun s hs =>
  (hx s hs).bind fun v _ ⟨hu, h⟩ => Ends.ite
    (fun _ => (tracks_discard hO).ends_after hu h fun _ _ => id) fun _ =>
      (hx.ends_items rounds v hu h).bind fun _ _ ht => .pure ht

theorem Tracks.delimited {d : Run (S × List Matched) Slot} (hd : Tracks O I g d F)
    (hx : Tracks O I g x F) : Tracks O I g (delimited O.watched d x) F := fun s hs =>
  ends_here_bind ((hd s hs).bind fun _ _ ⟨hu, h⟩ => Ends.ite (fun _ => .pure ⟨hu, h⟩) fun _ =>
    (hx.ends_after hu h fun _ _ => id).bind fun _ _ ⟨ht, h'⟩ => Ends.ite
      (fun _ => ends_retreat_back (a := O.place s) hO (hO.pos s hs) ht h'.toOnward)
      fun _ => .pure ⟨ht, h'⟩)

theorem Tracks.bounded (hx : Tracks O I g x F) (max : Option UInt32) (values : List Value) :
    Tracks O I g (bounded O.watched max x values) F := by
  cases max with
  | none => exact hx
  | some max => exact fun s hs => Ends.ite (fun _ => tracks_discard hO s hs) fun _ => hx s hs

/-- Who takes the first character of the further items matters only if the first one may match
without going anywhere. -/
theorem Tracks.range {P : Prop} (hx : Tracks O I g x F) (hl : Leaves O I x fun a b => a = b → P)
    (hy : Tracks O I g y K) (hstill : P → ∀ id, K id → F id) (rounds : Nat) (min : UInt32)
    (max : Option UInt32) : Tracks O I g (range O.watched rounds min max x y) F := by
  intro s hs
  refine ends_here_bind ((hx.and_leaves hl hs).bind fun v u ⟨hu, h, hleft⟩ => ?_)
  -- As long as nothing was taken, further items may only bring those that the first one allows.
  let J (t : S × List Matched) : Prop := I t ∧ Reached g F (O.place s) (O.place t) ∧
    (v.isFailed = false → O.pos s.1 = O.pos t.1 → ∀ id, K id → F id)
  have hitems : Ends I.ended (items rounds (Peg.bounded O.watched max y) v) u fun _ t => J t := by
    refine ends_items_of (J := J) (fun hv values t ⟨ht, h, hstart⟩ => ?_) rounds
      ⟨hu, h, fun hv heq => ?_⟩
    · refine (hy.bounded hO max values t ht).mono fun _ t' ⟨ht', h'⟩ => ⟨ht', ?_, fun _ heq => ?_⟩
      · exact h.andThen h' (hstart hv)
      · have hle : O.pos t.1 ≤ O.pos t'.1 := h'.le
        exact hstart hv (Nat.le_antisymm h.le (hle.trans_eq heq.symm))
    · exact hstill (hleft.of_matched (by simp [hv]) heq)
  exact hitems.bind fun _ _ ⟨ht, h, _⟩ => Ends.ite
    (fun _ => ends_retreat_back (a := O.place s) hO (hO.pos s hs) ht h.toOnward)
      fun _ => .pure ⟨ht, h⟩

end

/-! ## Notes -/

/-- It is known of all matches that took something who took the first character, and that is one of
the terminals that are expected of what was matched. -/
def Foretold (g : Grammar) (F : Subject → NodeId → Prop) (notes : List Matched) : Prop :=
  ∀ e ∈ takers g notes, e.1.start < e.1.stop → ∃ id, e.2 = some id ∧ F e.1.subject id

/-- An invariant is kept where a match is noted whose first character is taken as expected. -/
def Grows (I : Invariant (S × List Matched)) (g : Grammar) (F : Subject → NodeId → Prop) : Prop :=
  ∀ s m, I s →
    (m.start < m.stop → ∃ id, firstTaker? g m (takers g s.2) = some id ∧ F m.subject id) →
    I (s.1, m :: s.2)

section

variable {O : Ops S} {I : Invariant (S × List Matched)} {g : Grammar}
  {F : Subject → NodeId → Prop} {x : Run (S × List Matched) Slot} {s : S × List Matched}
  {notes : List Matched} {m : Matched}

theorem foretold_nil : Foretold g F [] := nofun

theorem Foretold.cons (h : Foretold g F notes) (htaker : m.start < m.stop →
      ∃ id, firstTaker? g m (takers g notes) = some id ∧ F m.subject id) :
    Foretold g F (m :: notes) :=
  List.forall_mem_cons.mpr ⟨htaker, h⟩

/-- What a rule matched is foretold by what its expression did. -/
theorem Foretold.firstTaker?_rule (h : Foretold g F notes) {index : Nat} {r : Rule}
    (hr : g.rules[index]? = some r) {p q : Nat} (hmem : ⟨.node r.expression, p, q⟩ ∈ notes)
    (hlt : p < q) :
    ∃ id, firstTaker? g ⟨.rule index, p, q⟩ (takers g notes) = some id ∧
      F (.node r.expression) id := by
  obtain ⟨e, hfind, he, heq⟩ := find?_takers (g := g) hmem
  obtain ⟨id, hid, hF⟩ := h e he (by rw [heq]; exact hlt)
  rw [heq] at hF
  refine ⟨id, ?_, hF⟩
  simp only [firstTaker?, hr, Option.bind_some, hfind]
  exact hid

/-- After a match was noted it is known who took its first character, if that is known before. -/
theorem ends_noting {subject : Subject} (hgrows : Grows I g F)
    (hx : Ends I.ended x s fun v t => I t ∧
      if v.isFailed then Reached g (F subject) (O.place s) (O.place t)
      else Onward (O.place s) (O.place t) ∧ (O.pos s.1 < O.pos t.1 → ∃ id,
        firstTaker? g ⟨subject, O.pos s.1, O.pos t.1⟩ (takers g t.2) = some id ∧ F subject id)) :
    Ends I.ended (noting O subject x) s fun _ t =>
      I t ∧ Reached g (F subject) (O.place s) (O.place t) := by
  refine ⟨fun v u hrun => ?_, fun e u hrun => ?_⟩
  · obtain ⟨t, hxt, rfl⟩ := noting_eq_some.mp hrun
    obtain ⟨ht, h⟩ := hx.ok v t hxt
    rw [noted]
    split at h
    · next hv =>
      rw [if_pos hv]
      exact ⟨ht, h⟩
    · next hv =>
      rw [if_neg hv]
      exact ⟨hgrows t _ ht h.2, h.1.note h.2⟩
  · obtain ⟨t, hxt, hu⟩ := noting_eq_some.mp hrun
    rw [hu]
    exact hx.error e t hxt

/-- What a node that is no terminal takes is taken by what is below it. -/
theorem Tracks.noting {id : NodeId} (hx : Tracks O I g x (F (.node id))) (hgrows : Grows I g F)
    (hshape : (g.shape id).isTerminal = false) :
    Tracks O I g (noting O (.node id) x) (F (.node id)) := by
  refine fun s hs => ends_noting hgrows ((hx s hs).mono fun v t ⟨ht, h⟩ => ⟨ht, ?_⟩)
  split
  · exact h
  · refine ⟨h.toOnward, fun hlt => ?_⟩
    simp only [firstTaker?, hshape]
    exact h.taken hlt

/-- What a terminal takes is taken by the terminal. -/
theorem tracks_terminal {input : Input} (hO : O.watched.Keeps I) (hI : I.Spreads input)
    (hgrows : Grows I g F) {id : NodeId} (hshape : (g.shape id).isTerminal = true)
    (hfirst : ∀ a text, I.offsets a → taken? input a (g.shape id) = some text → text ≠ [] →
      F (.node id) id) :
    Tracks O I g (Peg.noting O (.node id) (terminal O.watched input (g.shape id)))
      (F (.node id)) := by
  refine fun s hs => ends_noting hgrows ?_
  have hstart : I.offsets (O.pos s.1) := hO.pos s hs
  cases htaken : taken? input (O.pos s.1) (g.shape id) with
  | none =>
    have hrun : terminal O.watched input (g.shape id) s =
        some (.ok .failed, O.watched.fail (wanted (g.shape id)) s) := by
      rw [terminal]
      simp only [Ops.watched, htaken]
    obtain ⟨ht, hpos⟩ := hO.fail (wanted (g.shape id)) s hs
    refine .of_eq hrun ⟨ht, ?_⟩
    rw [show O.place (O.watched.fail _ s) = O.place s from Prod.ext hpos rfl]
    exact Reached.refl _
  | some text =>
    let stop := O.pos s.1 + Text.byteSize text
    have hrun : terminal O.watched input (g.shape id) s =
        some (.ok (.text (String.ofList text)), O.watched.goTo stop s) := by
      rw [terminal]
      simp only [Ops.watched, htaken]
      rfl
    obtain ⟨ht, hpos⟩ := hO.goTo stop s (hI _ _ text hstart htaken) hs
    have hpos : O.pos (O.watched.goTo stop s).1 = stop := hpos
    refine .of_eq hrun ⟨ht, ?_⟩
    rw [if_neg (by simp [Slot.text, Slot.isFailed]), hpos,
      show O.place (O.watched.goTo stop s) = (stop, s.2) from Prod.ext hpos rfl]
    refine ⟨⟨Nat.le_add_right _ _, [], rfl, by rintro _ ⟨⟩⟩, fun hlt => ⟨id, ?_, ?_⟩⟩
    · simp only [firstTaker?, hshape, if_true]
    · refine hfirst _ text hstart htaken ?_
      rintro rfl
      exact absurd hlt (Nat.lt_irrefl _)

end

/-! ## Rules -/

section

variable {σ : Type} {E : Setting σ} {g : Grammar} {F : Subject → NodeId → Prop}
  {L : Nat → Language} {notes notes' : List Matched}

/-- What is kept for a rule and took something was matched by the expression of the rule. -/
def noticed (g : Grammar) (notes : List Matched) (index : Nat) : Language := fun a b =>
  a ≤ b ∧ (a < b → ∃ r, g.rules[index]? = some r ∧ ⟨.node r.expression, a, b⟩ ∈ notes)

/-- All that is kept was noted, and all that was noted is taken as expected. -/
def noticing (g : Grammar) (F : Subject → NodeId → Prop) : Invariant (State σ × List Matched) where
  offsets _ := True
  holds s := Remembers (noticed g s.2) s.1 ∧ Foretold g F s.2
  ended s := Foretold g F s.2

theorem Remembers.mono {M : Nat → Language} {s : State σ} (h : Remembers L s)
    (himp : ∀ index a b, L index a b → M index a b) : Remembers M s :=
  fun T hT e he => (h T hT e he).weaken (himp _ _ _)

theorem noticing_keeps : (machine E).watched.Keeps (noticing g F) := by
  have hO (notes : List Matched) : (machine E).Keeps (.of (Remembers (noticed g notes))) :=
    machine_keeps
  exact
    { pos := fun _ _ => trivial
      goTo := fun p s _ hs => ⟨⟨((hO s.2).goTo p s.1 trivial hs.1).1, hs.2⟩, rfl⟩
      fail := fun e s hs => ⟨⟨((hO s.2).fail e s.1 hs.1).1, hs.2⟩, ((hO s.2).fail e s.1 hs.1).2⟩
      discard := fun s hs =>
        ⟨⟨((hO s.2).discard s.1 hs.1).1, hs.2⟩, ((hO s.2).discard s.1 hs.1).2⟩
      hush := fun s hs => ⟨⟨((hO s.2).hush s.1 hs.1).1, hs.2⟩, rfl⟩
      unhush := fun _ _ _ _ ht => ⟨⟨ht.1.congr rfl, ht.2⟩, rfl⟩
      unhush_ended := fun _ _ _ _ ht => ht
      call := fun a start args s v t _ hs hrun => by
        obtain ⟨hout, rfl⟩ := Prod.mk.inj hrun
        obtain ⟨hkept, hpos⟩ :=
          (hO s.2).call a start args s.1 v _ trivial hs.1 (Prod.ext hout rfl)
        exact ⟨⟨hkept, hs.2⟩, hpos⟩
      call_ended := fun a start args s e t _ hs hrun => by
        obtain ⟨-, rfl⟩ := Prod.mk.inj hrun
        exact hs.2 }

theorem noticing_grows : Grows (noticing (σ := σ) g F) g F := by
  refine fun s m hs htaker => ⟨hs.1.mono fun index a b h => ⟨h.1, fun hlt => ?_⟩, hs.2.cons htaker⟩
  obtain ⟨r, hr, hmem⟩ := h.2 hlt
  exact ⟨r, hr, List.mem_cons_of_mem _ hmem⟩

/-- What holds all along a watched parse if rules keep to languages. -/
def foretelling (E : Setting σ) (L : Nat → Language) (g : Grammar) (F : Subject → NodeId → Prop) :
    Invariant (State σ × List Matched) :=
  (watching (machine E) E.input (Remembers L) fun _ => True).and (noticing g F)

theorem foretelling_keeps : (machine E).watched.Keeps (foretelling E L g F) :=
  machine_keeps.watched.and noticing_keeps

theorem foretelling_spreads : (foretelling E L g F).Spreads E.input :=
  fun a shape text ha htaken => ⟨spreads_watching a shape text ha.1 htaken, trivial⟩

theorem foretelling_grows : Grows (foretelling E L g F) g F := by
  refine fun s m hs htaker => ⟨⟨hs.1.1, hs.1.2.1, fun _ _ => trivial⟩, ?_⟩
  exact noticing_grows s m hs.2 htaker

/-- A rule is left as the match of its expression is noted. -/
theorem left_noticed {S : Type} {O : Ops S} {input : Input}
    {invoke : Nat → Run (S × List Matched) Slot} {rounds index : Nat} {s t : S × List Matched}
    {v : Slot} {M : Language} (h : bodyNoting O input g invoke rounds index s = some (.ok v, t))
    (hleft : Left M (O.pos s.1) v (O.pos t.1)) (hle : O.pos s.1 ≤ O.pos t.1) :
    Left (noticed g t.2 index) (O.pos s.1) v (O.pos t.1) := by
  by_cases hv : v.isFailed = true
  · rw [Left, if_pos hv]
    exact hleft.of_failed hv
  · refine .matched hv ⟨hle, fun _ => ?_⟩
    rw [bodyNoting] at h
    cases hr : g.rules[index]? with
    | none =>
      rw [hr] at h
      cases h
      exact absurd rfl hv
    | some r =>
      rw [hr, Grammar.depthBound] at h
      obtain ⟨u, -, rfl⟩ := noting_eq_some.mp h
      rw [noted, if_neg hv]
      exact ⟨r, rfl, List.mem_cons_self⟩

/-- A rule takes what its expression took, during this invocation or, if the outcome is recalled,
during an earlier one. -/
theorem Foretold.rule {a b : Place} {v : Slot} {index : Nat} (h : Foretold g F b.2)
    (hroot : ∀ r id, g.rules[index]? = some r → F (.node r.expression) id → F (.rule index) id)
    (honward : Onward a b) (hleft : Left (noticed g b.2 index) a.1 v b.1) :
    if v.isFailed then Reached g (F (.rule index)) a b
    else Onward a b ∧ (a.1 < b.1 → ∃ id,
      firstTaker? g ⟨.rule index, a.1, b.1⟩ (takers g b.2) = some id ∧ F (.rule index) id) := by
  split
  · next hv =>
    rw [show b = (a.1, b.2) from Prod.ext (hleft.of_failed hv) rfl]
    exact honward.back
  · next hv =>
    refine ⟨honward, fun hlt => ?_⟩
    obtain ⟨r, hr, hmem⟩ := (hleft.of_matched hv).2 hlt
    obtain ⟨id, hid, hF⟩ := h.firstTaker?_rule hr hmem hlt
    exact ⟨id, hid, hroot r id hr hF⟩

/-- Rules take what their expressions take. -/
theorem tracks_ruleNoting
    (hrules : ∀ fuel index, Matches (machine E).watched
      (watching (machine E) E.input (Remembers L) fun _ => True) (ruleNoting E g fuel index)
      (L index))
    (hbodies : ∀ fuel index, Matches (machine E).watched
      (watching (machine E) E.input (Remembers L) fun _ => True)
      (bodyNoting (machine E) E.input g (ruleNoting E g fuel) fuel index) (L index))
    (hbody : ∀ fuel, (∀ index, Tracks (machine E) (foretelling E L g F) g
        (ruleNoting E g fuel index) (F (.rule index))) →
      ∀ index, Tracks (machine E) (foretelling E L g F) g
        (bodyNoting (machine E) E.input g (ruleNoting E g fuel) fuel index) fun _ => True)
    (hroot : ∀ index r id, g.rules[index]? = some r → F (.node r.expression) id →
      F (.rule index) id) (fuel index : Nat) :
    Tracks (machine E) (foretelling E L g F) g (ruleNoting E g fuel index) (F (.rule index)) := by
  induction fuel generalizing index with
  | zero => exact tracks_forever
  | succ fuel ih =>
    rintro ⟨s, notes⟩ hs
    -- To enter the rule moves nothing, so its body starts where the rule does.
    obtain ⟨hentered, hstart⟩ := memo_entered (E := E) s index
    let entry : State σ × List Matched :=
      ({ s.entered E index with currentRule := some index }, notes)
    have hentry : foretelling E L g F entry := by
      refine ⟨⟨hs.1.1.congr hentered, ?_, hs.1.2.2⟩, hs.2.1.congr hentered, hs.2.2⟩
      exact (congrArg (fun p => ∃ cs, E.input.rest? p = some cs) hstart).mpr hs.1.2.1
    have hinside := hbody fuel ih index entry hentry
    have hnoticed : Ends (Foretold g F ·.2) (ruleNoting E g (fuel + 1) index) (s, notes)
        fun _ t => noticing g F t ∧
          Reached g (F (.rule index)) (s.pos, notes) ((machine E).place t) := by
      refine ends_noting noticing_grows ⟨fun v u hrun => ?_, fun e u hrun => ?_⟩
      · rcases watchedRule_eq_some.mp hrun with ⟨p, result, hhit, hv, rfl⟩ | ⟨-, t, hx, rfl⟩
        · -- The outcome is recalled, and what is kept was noted when the body was run.
          cases hv
          obtain ⟨hkept, hleft⟩ := hs.2.1.recalled hhit
          have hle : s.pos ≤ ((s.entered E index).recalled E index s.pos p v).pos := by
            by_cases hv : v.isFailed = true
            · exact (hleft.of_failed hv).ge
            · exact (hleft.of_matched hv).1
          exact ⟨⟨hkept, hs.2.2⟩, hs.2.2.rule (hroot index) ⟨hle, [], rfl, nofun⟩ hleft⟩
        · -- The body was run, and what it matched is noted before the rule is.
          obtain ⟨ht, hreached⟩ := hinside.ok v t hx
          have hwatched := (hbodies fuel index entry hentry.1).ok v t hx
          have hleft := left_noticed hx hwatched.2 hreached.le
          rw [show (machine E).pos entry.1 = s.pos from hstart, machine_pos] at hleft
          rw [show (machine E).place entry = (s.pos, notes) from Prod.ext hstart rfl] at hreached
          obtain ⟨hkept, hback⟩ := Remembers.left (E := E) ht.2.1 hleft
          have hwent : Onward (s.pos, notes) ((State.left E s index (.ok v) t.1).pos, t.2) := by
            rw [hback]
            exact hreached.toOnward
          rw [← hback] at hleft
          exact ⟨⟨hkept, ht.2.2⟩, ht.2.2.rule (hroot index) hwent hleft⟩
      · rcases watchedRule_eq_some.mp hrun with ⟨p, result, hhit, hv, rfl⟩ | ⟨-, t, hx, rfl⟩
        · cases hv
        · exact (hinside.error e t hx).2
    exact ((hrules (fuel + 1) index _ hs.1).and hnoticed).mono
      fun v t ⟨⟨hwatched, _⟩, ht, h⟩ => ⟨⟨hwatched, ht⟩, h⟩

end

end Peg

end PegMachine
