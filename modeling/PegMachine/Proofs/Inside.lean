import PegMachine.Proofs.MatchEnds
import PegMachine.Proofs.Prepared
import PegMachine.Proofs.Safety

/-!
# Offsets stay inside

The offset of a parse moves forward by what was seen to follow, and back to offsets that were saved
on the stack or kept in the memo table. Two facts make all of them places of the input, between
which there is a text. Offsets on the stack come in order: none is behind one that was saved later,
nor behind the current offset, nor in front of where the rule began. And the code is prepared:
in front of an instruction that depends on it, the register of actions holds an offset from the
stack, or a string constant is known to follow.

`Steady` says so of one moment, and every instruction without blocks keeps it.
-/

namespace PegMachine

/-! ## Offsets -/

namespace Input

variable {input : Input} {a b : Nat} {cs text : List Char}

/-- An offset is a place of the input: not behind its end and not inside a character. -/
def Inside (input : Input) (a : Nat) : Prop := a ≤ input.size ∧ input.isBoundary a = true

theorem inside_iff : input.Inside a ↔ ∃ cs, input.rest? a = some cs := by
  rw [← isBoundary_iff]
  refine ⟨And.right, fun h => ⟨?_, h⟩⟩
  obtain ⟨cs, hcs⟩ := isBoundary_iff.mp h
  exact le_size hcs

theorem inside_zero (input : Input) : input.Inside 0 := inside_iff.mpr ⟨_, input.rest?_zero⟩

/-- There is a text between two places in order. -/
theorem Inside.slice (ha : input.Inside a) (hb : input.Inside b) (hle : a ≤ b) :
    (input.slice? a b).isSome = true := by
  obtain ⟨cs, hcs⟩ := inside_iff.mp ha
  rw [slice?, hb.2, hcs]
  simp [hle]

/-- What follows a place leads to a place. -/
theorem Inside.take (h : input.rest? a = some cs) (htext : text <+: cs) :
    input.Inside (a + Text.byteSize text) := by
  obtain ⟨ys, rfl⟩ := htext
  exact inside_iff.mpr ⟨ys, rest?_add h⟩

end Input

/-- The offsets that are saved on a stack, the top first. -/
def positions (stack : List Slot) : List Nat := stack.filterMap Slot.pos?

section

variable {p : Nat} {v : Value} {stack stack' : List Slot}

@[simp] theorem positions_nil : positions [] = [] := rfl

@[simp] theorem positions_pos : positions (.pos p :: stack) = p :: positions stack := rfl

@[simp] theorem positions_value : positions (.value v :: stack) = positions stack := rfl

@[simp] theorem positions_failed : positions (.failed :: stack) = positions stack := rfl

theorem positions_result {v : Slot} (h : v.Is .result) :
    positions (v :: stack) = positions stack := by
  cases h with
  | failure => rfl
  | success => rfl

theorem positions_sublist (h : stack'.Sublist stack) :
    (positions stack').Sublist (positions stack) := h.filterMap _

theorem mem_positions : p ∈ positions stack ↔ .pos p ∈ stack := by
  rw [positions, List.mem_filterMap]
  constructor
  · rintro ⟨v, hv, hp⟩
    cases v with
    | pos q =>
      cases hp
      exact hv
    | failed => cases hp
    | value => cases hp
  · exact fun h => ⟨_, h, rfl⟩

end

/-! ## States -/

section

variable {σ : Type} {E : Setting σ} {input : Input} {s t u : State σ}

namespace State

/-- Every offset that a state keeps is a place of the input, and no outcome that is kept leads
back. -/
structure Inside (input : Input) (s : State σ) : Prop where
  pos : input.Inside s.pos
  savedPos : input.Inside s.savedPos
  furthest : input.Inside s.furthest
  memo : ∀ T, s.memo = some T → ∀ e ∈ T.entries,
    input.Inside e.pos ∧ input.Inside e.nextPos ∧ e.pos ≤ e.nextPos

/-- A state has the offsets of another one, but it may have failed at the current one. -/
structure Stays (s t : State σ) : Prop where
  pos_eq : t.pos = s.pos
  savedPos_eq : t.savedPos = s.savedPos
  memo_eq : t.memo = s.memo
  furthest : t.furthest = s.furthest ∨ t.furthest = s.pos

theorem Stays.refl (s : State σ) : s.Stays s := ⟨rfl, rfl, rfl, .inl rfl⟩

theorem Stays.trans (h : s.Stays t) (h' : t.Stays u) : s.Stays u where
  pos_eq := h'.pos_eq.trans h.pos_eq
  savedPos_eq := h'.savedPos_eq.trans h.savedPos_eq
  memo_eq := h'.memo_eq.trans h.memo_eq
  furthest := h'.furthest.elim (fun h' => h.furthest.imp h'.trans h'.trans) fun h' =>
    .inr (h'.trans h.pos_eq)

theorem Inside.stays (h : s.Inside input) (hst : s.Stays t) : t.Inside input where
  pos := hst.pos_eq ▸ h.pos
  savedPos := hst.savedPos_eq ▸ h.savedPos
  furthest := hst.furthest.elim (fun heq => heq ▸ h.furthest) fun heq => heq ▸ h.pos
  memo := fun T hT => h.memo T (hst.memo_eq ▸ hT)

/-- The state goes to another place. -/
theorem Inside.moved (h : s.Inside input) {a : Nat} (ha : input.Inside a) :
    Inside input { s with pos := a } := ⟨ha, h.savedPos, h.furthest, h.memo⟩

theorem stays_count (s : State σ) (rule : Nat) (f : RuleCounters → RuleCounters) :
    s.Stays (s.count rule f) := ⟨rfl, rfl, rfl, .inl rfl⟩

theorem stays_countCurrent (s : State σ) (f : RuleCounters → RuleCounters) :
    s.Stays (s.countCurrent f) := by
  unfold countCurrent
  split
  · exact s.stays_count _ _
  · exact .refl s

theorem stays_report (s : State σ) (e : Expectation) : s.Stays (s.report e) := by
  unfold report
  dsimp only
  split
  · exact ⟨rfl, rfl, rfl, .inl rfl⟩
  · split
    · exact ⟨rfl, rfl, rfl, .inr rfl⟩
    · exact ⟨rfl, rfl, rfl, .inl rfl⟩

theorem stays_fail (E : Setting σ) (s : State σ) (c : Nat) : s.Stays (s.fail E c).2 := by
  unfold fail failFor
  split
  · dsimp only
    split
    · exact s.stays_countCurrent _
    · exact (s.stays_countCurrent _).trans (stays_report _ _)
  · exact s.stays_countCurrent _

theorem fst_fail (E : Setting σ) (s : State σ) (c : Nat) : (s.fail E c).1 = .failed := by
  unfold fail
  split <;> rfl

theorem stays_trace (E : Setting σ) (s : State σ) (kind : TraceEvent.Kind) (rule start stop : Nat)
    (result : Option Slot) : s.Stays (s.trace E kind rule start stop result) := by
  unfold trace
  split <;> exact ⟨rfl, rfl, rfl, .inl rfl⟩

theorem stays_entered (E : Setting σ) (s : State σ) (index : Nat) :
    s.Stays (s.entered E index) :=
  (s.stays_count _ _).trans (stays_trace ..)

theorem stays_returned (E : Setting σ) (s : State σ) (rule start : Nat) (v : Slot) :
    (s.remember E rule start v).Stays (s.returned E rule start v) := by
  unfold returned
  dsimp only
  split
  · exact (stays_count ..).trans (stays_trace ..)
  · exact (stays_count ..).trans (stays_trace ..)

theorem inside_initial (E : Setting σ) (statistics : Statistics) (hs : σ) :
    (E.initial statistics hs).Inside E.input := by
  refine ⟨E.input.inside_zero, E.input.inside_zero, E.input.inside_zero, fun T hT e he => ?_⟩
  rw [Setting.initial] at hT
  dsimp only at hT
  split at hT
  · cases hT
    exact absurd he (Array.not_mem_empty e)
  · cases hT

end State

/-! ## Invocations -/

namespace State.Inside

variable {index start p : Nat} {v : Slot}

/-- What was kept leads to a place that is not in front of the current one. -/
theorem memoized (h : s.Inside input) (hhit : s.memoized? E index = some (p, v)) :
    input.Inside p ∧ s.pos ≤ p := by
  rw [memoized?] at hhit
  split at hhit
  · obtain ⟨e, he, hout⟩ := Option.map_eq_some_iff.mp hhit
    obtain ⟨T, hT, hget⟩ := Option.bind_eq_some_iff.mp (Option.filter_eq_some_iff.mp he).1
    cases hout
    obtain ⟨hmem, hpos, -⟩ := MemoTable.get?_eq_some hget
    obtain ⟨-, hnext, hle⟩ := h.memo T hT e hmem
    exact ⟨hnext, hpos ▸ hle⟩
  · cases hhit

theorem recalled (h : s.Inside input) (hp : input.Inside p) :
    (s.recalled E index start p v).Inside input ∧ (s.recalled E index start p v).pos = p := by
  have hmoved : Inside input { s with pos := p } := h.moved hp
  unfold State.recalled
  dsimp only
  split
  · exact ⟨hmoved.stays ((stays_count ..).trans (stays_trace ..)), (stays_trace ..).pos_eq⟩
  · exact ⟨hmoved.stays ((stays_count ..).trans (stays_trace ..)), (stays_trace ..).pos_eq⟩

/-- The outcome of a rule is kept with where it began and where it ended. -/
theorem remember (h : s.Inside input) (hstart : input.Inside start) (hle : start ≤ s.pos) :
    (s.remember E index start v).Inside input ∧ (s.remember E index start v).pos = s.pos := by
  unfold State.remember
  split
  · refine ⟨⟨h.pos, h.savedPos, h.furthest, fun T hT e he => ?_⟩, rfl⟩
    obtain ⟨T', hT', rfl⟩ := Option.map_eq_some_iff.mp hT
    rcases MemoTable.mem_insert he with rfl | he
    · exact ⟨hstart, h.pos, hle⟩
    · exact h.memo T' hT' e he
  · exact ⟨h, rfl⟩

end State.Inside

/-- What came of an invocation that began at some offset, or of its body: the state is inside, and
not in front of that offset unless the parse ended. -/
structure Advanced (input : Input) (start : Nat) (o : Outcome Slot) (t : State σ) : Prop where
  inside : t.Inside input
  le : ∀ v, o = .ok v → start ≤ t.pos

namespace Advanced

variable {start index : Nat} {o : Outcome Slot} {v : Slot} {e : ParseFailure}

theorem ok (ht : t.Inside input) (hle : start ≤ t.pos) : Advanced input start (.ok v) t :=
  ⟨ht, fun _ _ => hle⟩

theorem error (ht : t.Inside input) : Advanced input start (.error e) t := ⟨ht, nofun⟩

theorem left (h : Advanced input s.pos o t) (hs : s.Inside input) :
    Advanced input s.pos o (State.left E s index o t) := by
  cases o with
  | error e => exact .error (h.inside.stays ⟨rfl, rfl, rfl, .inl rfl⟩)
  | ok v =>
    have hback : State.Inside input { t with currentRule := s.currentRule } :=
      h.inside.stays ⟨rfl, rfl, rfl, .inl rfl⟩
    obtain ⟨hkept, hpos⟩ : ((State.remember E { t with currentRule := s.currentRule } index s.pos
        v).Inside input) ∧ _ := hback.remember hs.pos (h.le v rfl)
    have hreturned := State.stays_returned E { t with currentRule := s.currentRule } index s.pos v
    exact .ok (hkept.stays hreturned)
      ((h.le v rfl).trans_eq (hreturned.pos_eq.trans hpos).symm)

end Advanced

/-! ## Moments -/

/-- What is known in front of an instruction holds. -/
def Known.Holds (E : Setting σ) (stack : List Slot) (s : State σ) : Known → Prop
  | .nothing => True
  | .follows c => ∃ cs, E.input.rest? s.pos = some ((E.program.string c).toList ++ cs)
  | .here => s.savedPos = s.pos
  | .saved n => stack[n]? = some (.pos s.savedPos)

/-- A moment in the run of a rule that began at an offset: all offsets are places of the input,
those on the stack come in order, and what is known holds. -/
structure Steady (E : Setting σ) (base : Nat) (k : Known) (stack : List Slot) (s : State σ) :
    Prop where
  inside : s.Inside E.input
  saved : ∀ a ∈ positions stack, E.input.Inside a
  descends : (s.pos :: (positions stack ++ [base])).Pairwise (· ≥ ·)
  known : k.Holds E stack s

/-- What an instruction is about to do with the text of the input. -/
inductive Deed where
  /-- It runs an action on the text from the register of actions on. -/
  | call
  /-- It takes the text from a saved offset on. -/
  | text (saved : Slot)
  /-- It takes some characters. -/
  | acceptN (n : Nat)
  /-- It takes a string constant. -/
  | acceptString (c : Nat)
  /-- It takes the text that a pattern matches. -/
  | acceptRegexp (c : Nat)

/-- What is done keeps to the input: texts are there, between offsets in order, and what is taken
ends at a place of the input. What a pattern matches is taken as it is. -/
def Deed.Safe (E : Setting σ) (s : State σ) : Deed → Prop
  | .call => s.savedPos ≤ s.pos ∧ (E.input.slice? s.savedPos s.pos).isSome = true
  | .text saved => ∃ p, saved = .pos p ∧ p ≤ s.pos ∧ (E.input.slice? p s.pos).isSome = true
  | .acceptN n => E.input.Inside (s.acceptN E n).2.pos
  | .acceptString c => E.input.Inside (s.acceptString E c).2.pos
  | .acceptRegexp c => E.input.Inside (s.acceptRegexp E c).2.pos ∧
      ∀ n, (E.pattern? c).bind (·.matchEnd? (s.rest E)) = some n →
        (s.acceptRegexp E c).2.pos = s.pos + n

/-- What an instruction is about to do, given its words and the stack. -/
def Opcode.deed? (arg : Nat → Nat) (stack : List Slot) : Opcode → Option Deed
  | .call => some .call
  | .text => some (.text (stack.headD .failed))
  | .acceptN => some (.acceptN (arg 1))
  | .acceptString => some (.acceptString (arg 1))
  | .acceptRegexp => some (.acceptRegexp (arg 1))
  | _ => none

theorem State.Inside.accept (h : s.Inside input) {text : List Char}
    (htext : text <+: input.rest s.pos) : (s.accept text).2.Inside input := by
  obtain ⟨cs, hcs⟩ := Input.inside_iff.mp h.pos
  rw [Input.rest_eq hcs] at htext
  exact h.moved (.take hcs htext)

namespace Steady

variable {base : Nat} {k : Known} {stack stack' : List Slot} {opcode : Opcode} {arg : Nat → Nat}

theorem base_le (h : Steady E base k stack s) : base ≤ s.pos :=
  (List.pairwise_cons.mp h.descends).1 base (by simp)

theorem le_pos (h : Steady E base k stack s) {a : Nat} (ha : a ∈ positions stack) : a ≤ s.pos :=
  (List.pairwise_cons.mp h.descends).1 a (List.mem_append_left _ ha)

/-- At the start of a rule nothing is saved. -/
theorem start (h : s.Inside E.input) : Steady E s.pos .nothing [] s :=
  ⟨h, nofun, by simp, trivial⟩

/-- Offsets may leave the stack while the parse moves to a place that is not in front of any other
one. -/
theorem moved (h : Steady E base k stack s) (ht : t.Inside E.input)
    (hsub : (positions stack').Sublist (positions stack))
    (hle : ∀ a ∈ positions stack' ++ [base], a ≤ t.pos) : Steady E base .nothing stack' t where
  inside := ht
  saved a ha := h.saved a (hsub.subset ha)
  descends := List.pairwise_cons.mpr
    ⟨hle, (List.pairwise_cons.mp h.descends).2.sublist (hsub.append_right [base])⟩
  known := trivial

/-- Offsets may leave the stack while the parse moves on. -/
theorem forth (h : Steady E base k stack s) (ht : t.Inside E.input) (hle : s.pos ≤ t.pos)
    (hsub : (positions stack').Sublist (positions stack)) : Steady E base .nothing stack' t :=
  h.moved ht hsub fun a ha =>
    ((List.pairwise_cons.mp h.descends).1 a ((hsub.append_right [base]).subset ha)).trans hle

/-- Offsets may leave the stack while the parse stays where it is. -/
theorem stays (h : Steady E base k stack s) (hst : s.Stays t)
    (hsub : (positions stack').Sublist (positions stack)) : Steady E base .nothing stack' t :=
  h.forth (h.inside.stays hst) hst.pos_eq.ge hsub

/-- An entry that is no saved offset comes onto the stack. -/
theorem push (h : Steady E base k stack s) {v : Slot} (hv : v.Is .result) :
    Steady E base .nothing (v :: stack) s :=
  h.stays (.refl s) (by rw [positions_result hv])

/-- What is below a saved offset is not behind it. -/
theorem le_saved (h : Steady E base k stack s) {n a : Nat} (hn : stack[n]? = some (.pos a)) :
    ∀ b ∈ positions (stack.drop n) ++ [base], b ≤ a := by
  obtain ⟨hlt, hn⟩ := List.getElem?_eq_some_iff.mp hn
  have hsub : (positions (stack.drop n)).Sublist (positions stack) :=
    positions_sublist (List.drop_sublist n stack)
  have hbelow := (List.pairwise_cons.mp h.descends).2.sublist (hsub.append_right [base])
  rw [List.drop_eq_getElem_cons hlt, hn, positions_pos, List.cons_append] at hbelow ⊢
  exact List.forall_mem_cons.mpr ⟨le_rfl, (List.pairwise_cons.mp hbelow).1⟩

/-- The current offset is saved. -/
theorem pushPos (h : Steady E base k stack s) : Steady E base .nothing (s.here :: stack) s where
  inside := h.inside
  saved := List.forall_mem_cons.mpr ⟨h.inside.pos, h.saved⟩
  descends := List.pairwise_cons.mpr
    ⟨List.forall_mem_cons.mpr ⟨le_rfl, (List.pairwise_cons.mp h.descends).1⟩, h.descends⟩
  known := trivial

/-- Some of what follows is taken. -/
theorem accept (h : Steady E base k stack s) {text : List Char} (htext : text <+: s.rest E) :
    Steady E base .nothing ((s.accept text).1 :: stack) (s.accept text).2 :=
  (h.forth (h.inside.accept htext) (Nat.le_add_right _ _) (.refl _)).push (.success _)

/-- The parse is where it was and more is known. -/
theorem learn (h : Steady E base .nothing stack s) (hk : k.Holds E stack s) :
    Steady E base k stack s := { h with known := hk }

/-- What an instruction does with the text is safe where it finds what it reads and what it asks
for is known. -/
theorem safe (h : Steady E base k stack s) (hasks : opcode.Asks arg k)
    (hfinds : opcode.Finds arg stack) {d : Deed} (hd : opcode.deed? arg stack = some d) :
    d.Safe E s := by
  cases opcode with
  | call =>
    cases hd
    have hle : s.savedPos ≤ s.pos := by
      rcases hasks with ⟨rfl, -⟩ | rfl
      · exact h.known.le
      · exact h.le_pos (mem_positions.mpr (List.mem_of_getElem? h.known))
    exact ⟨hle, h.inside.savedPos.slice h.inside.pos hle⟩
  | text =>
    cases hd
    obtain ⟨p, rest, rfl⟩ := hfinds
    have hmem : p ∈ positions (.pos p :: rest) := List.mem_cons_self
    exact ⟨p, rfl, h.le_pos hmem, (h.saved p hmem).slice h.inside.pos (h.le_pos hmem)⟩
  | acceptN =>
    cases hd
    exact (h.inside.accept (List.take_prefix _ _)).pos
  | acceptString =>
    cases hd
    obtain rfl : k = .follows (arg 1) := hasks
    obtain ⟨cs, hcs⟩ := h.known
    exact .take hcs (List.prefix_append _ _)
  | acceptRegexp =>
    cases hd
    refine ⟨(h.inside.accept (Text.takeBytes_prefix _ _)).pos, fun n hn => ?_⟩
    obtain ⟨r, -, hmatch⟩ := Option.bind_eq_some_iff.mp hn
    obtain ⟨xs, ys, hrest, rfl⟩ := Regex.matchEnd?_eq_some hmatch
    simp only [State.acceptRegexp, State.accept, hn, Option.getD_some]
    rw [hrest, Text.takeBytes_append]
  | _ => cases hd

/-- An action leaves the offset where it is or takes the match back to where its text starts. -/
theorem call (h : Steady E base k stack s) {index n : Nat} {args : List Value}
    (hk : (k = .here ∧ n = 0) ∨ k = .saved n) {o : Outcome Slot}
    (hrun : s.call E index args = (o, t)) :
    t.Inside E.input ∧ ∀ v, o = .ok v → Steady E base .nothing (v :: stack.drop n) t := by
  have hdrop : (positions (stack.drop n)).Sublist (positions stack) :=
    positions_sublist (List.drop_sublist n stack)
  have hsame (hs : σ) : s.Stays { s with handlerState := hs } := ⟨rfl, rfl, rfl, .inl rfl⟩
  have herror {e : ParseFailure} (ht : s.Stays t) : t.Inside E.input ∧
      ∀ v, .error e = Except.ok v → Steady E base .nothing (v :: stack.drop n) t :=
    ⟨h.inside.stays ht, nofun⟩
  have hok {v : Slot} (ht : Steady E base .nothing (v :: stack.drop n) t) : t.Inside E.input ∧
      ∀ w, .ok v = (.ok w : Outcome Slot) → Steady E base .nothing (w :: stack.drop n) t :=
    ⟨ht.inside, fun w hw => by cases hw; exact ht⟩
  unfold State.call at hrun
  split at hrun
  · cases hrun
    exact herror (.refl _)
  · unfold State.perform at hrun
    dsimp only at hrun
    split at hrun
    · next v hanswer =>
      cases hrun
      exact hok ((h.stays (hsame _) hdrop).push (.success v))
    · cases hrun
      refine hok (Steady.push (k := .nothing) ?_ .failure)
      have hback {hs : σ} : State.Inside E.input { s with handlerState := hs, pos := s.savedPos } :=
        (h.inside.stays (hsame hs)).moved h.inside.savedPos
      rcases hk with ⟨rfl, rfl⟩ | rfl
      · exact h.forth hback h.known.ge hdrop
      · exact h.moved hback hdrop (h.le_saved h.known)
    · cases hrun
      exact herror ⟨rfl, rfl, rfl, .inl rfl⟩
    · cases hrun
      exact herror ⟨rfl, rfl, rfl, .inl rfl⟩
    · cases hrun
      exact herror (hsame _)

/-- Every instruction without blocks keeps a moment steady, and what it learns is known then. -/
theorem plain (h : Steady E base k stack s) (hasks : opcode.Asks arg k)
    (hfinds : opcode.Finds arg stack) {o : Outcome (List Slot)}
    (hrun : Interpreter.plain E opcode arg stack s = (o, t)) :
    t.Inside E.input ∧ ∀ stack', o = .ok stack' →
      Steady E base (opcode.learns arg k) stack' t := by
  have hok {k' : Known} {stack' : List Slot} (ht : Steady E base k' stack' t) : t.Inside E.input ∧
      ∀ stack'', .ok stack' = (.ok stack'' : Outcome (List Slot)) → Steady E base k' stack'' t :=
    ⟨ht.inside, fun _ heq => by cases heq; exact ht⟩
  have hsub {stack' : List Slot} (hsub : stack'.Sublist stack) :
      (positions stack').Sublist (positions stack) := positions_sublist hsub
  cases opcode with
  | push | pushUndefined | pushNull | pushEmptyArray =>
    cases hrun
    exact hok (h.push (.success _))
  | pushFailed =>
    cases hrun
    exact hok ((h.stays (s.stays_countCurrent _) (.refl _)).push .failure)
  | fail =>
    cases hrun
    refine hok ((h.stays (s.stays_fail E _) (.refl _)).push ?_)
    rw [State.fst_fail]
    exact .failure
  | pushCurrPos =>
    cases hrun
    exact hok h.pushPos
  | pop =>
    cases hrun
    exact hok (h.stays (.refl s) (hsub (List.tail_sublist stack)))
  | popN =>
    cases hrun
    exact hok (h.stays (.refl s) (hsub (List.drop_sublist _ stack)))
  | nip =>
    obtain _ | ⟨v, _ | ⟨w, rest⟩⟩ := stack
    · cases hfinds
    · simp [Opcode.Finds] at hfinds
    · cases hrun
      exact hok (h.stays (.refl s) (hsub ((List.sublist_cons_self w rest).cons_cons v)))
  | popCurrPos =>
    obtain ⟨p, rest, rfl⟩ := hfinds
    cases hrun
    have hp : E.input.Inside p := h.saved p List.mem_cons_self
    exact hok (h.moved (h.inside.moved hp) (List.sublist_cons_self p _)
      (List.forall_mem_cons.mp (h.le_saved (n := 0) rfl)).2)
  | append =>
    obtain ⟨v, items, rest, rfl⟩ := hfinds
    cases hrun
    exact hok (h.stays (.refl s) (.refl _))
  | wrap =>
    cases hrun
    exact hok ((h.stays (.refl s) (hsub (List.drop_sublist _ stack))).push (.success _))
  | text =>
    cases hrun
    exact hok ((h.stays (.refl s) (hsub (List.tail_sublist stack))).push (.success _))
  | acceptN =>
    cases hrun
    exact hok (h.accept (List.take_prefix _ _))
  | acceptString =>
    obtain rfl : k = .follows (arg 1) := hasks
    obtain ⟨cs, hcs⟩ := h.known
    cases hrun
    exact hok (h.accept ⟨cs, (Input.rest_eq hcs).symm⟩)
  | acceptRegexp =>
    cases hrun
    exact hok (h.accept (Text.takeBytes_prefix _ _))
  | loadSavedPos =>
    obtain ⟨p, hp⟩ := hfinds
    have hload : s.loadSavedPos (stack.getD (arg 1) .failed) = { s with savedPos := p } := by
      rw [List.getD_eq_getElem?_getD, hp]
      rfl
    have hinside : E.input.Inside p := h.saved p (mem_positions.mpr (List.mem_of_getElem? hp))
    dsimp only [Interpreter.plain] at hrun
    rw [hload] at hrun
    cases hrun
    have ht : State.Inside E.input { s with savedPos := p } :=
      ⟨h.inside.pos, hinside, h.inside.furthest, h.inside.memo⟩
    exact hok ((h.forth ht le_rfl (.refl _)).learn hp)
  | updateSavedPos =>
    cases hrun
    have ht : s.updateSavedPos.Inside E.input :=
      ⟨h.inside.pos, h.inside.pos, h.inside.furthest, h.inside.memo⟩
    exact hok ((h.forth ht le_rfl (.refl _)).learn rfl)
  | call =>
    rw [Interpreter.plain_call] at hrun
    generalize hcall : s.call E (arg 1) ((List.range (arg 3)).map fun i =>
      (stack.getD (arg (4 + i)) .failed).toValue) = r at hrun
    obtain ⟨o', t'⟩ := r
    cases hrun
    obtain ⟨ht, hv⟩ := h.call hasks hcall
    refine ⟨ht, fun stack' heq => ?_⟩
    cases o' with
    | error e => cases heq
    | ok v =>
      cases heq
      exact hv v rfl
  | silentFailsOn =>
    cases hrun
    have ht := h.stays (t := s.silentOn) ⟨rfl, rfl, rfl, .inl rfl⟩ (.refl _)
    refine hok (ht.learn ?_)
    have hk := h.known
    cases k <;> exact hk
  | _ =>
    cases hrun
    exact hok (h.stays ⟨rfl, rfl, rfl, .inl rfl⟩ (.refl _))

/-- In the block that a condition leads to, what the condition shows is known. -/
theorem holds (h : Steady E base k stack s)
    (hholds : Interpreter.holds E opcode arg stack s = true) :
    Steady E base (opcode.shows arg) stack s := by
  refine (h.stays (.refl s) (.refl _)).learn ?_
  cases opcode with
  | matchString =>
    obtain ⟨cs, hcs⟩ := Input.inside_iff.mp h.inside.pos
    have hprefix : (E.program.string (arg 1)).toList <+: cs := by
      rw [← Input.rest_eq hcs]
      exact List.isPrefixOf_iff_prefix.mp hholds
    obtain ⟨ys, rfl⟩ := hprefix
    exact ⟨ys, hcs⟩
  | _ => trivial

/-- Less may be known. -/
theorem forget (h : Steady E base k stack s) : Steady E base .nothing stack s :=
  h.stays (.refl s) (.refl _)

/-- A rule that was invoked gives a result further on. -/
theorem result (h : Steady E base k stack s) {v : Slot} (hv : v.Is .result)
    (ht : t.Inside E.input) (hle : s.pos ≤ t.pos) : Steady E base .nothing (v :: stack) t :=
  (h.forth ht hle (.refl _)).push hv

end Steady

end

end PegMachine
