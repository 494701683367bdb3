import Mathlib.Data.List.Induction
import PegMachine.Proofs.Boundaries
import PegMachine.Proofs.Positions

/-!
# Lines and columns

The position of an offset is that behind the text before it: one line more than there are line ends
in that text, and one column more than there are characters behind the last of them. A tracker that
is asked for one offset after another, in whatever order, answers so each time; a line feed that
follows a carriage return ends no second line, even when the tracker was asked for the offset
between the two.
-/

namespace PegMachine

namespace Text

/-- Whether a line ends with a character. -/
def endsLine (c : Char) : Bool := c == '\n' || c == '\r' || c == '\u2028' || c == '\u2029'

/-- The number of line ends in a text; a carriage return and a line feed behind it are one. -/
def lineEnds : List Char → Nat
  | [] => 0
  | '\r' :: '\n' :: cs => lineEnds cs + 1
  | c :: cs => if endsLine c then lineEnds cs + 1 else lineEnds cs

/-- The characters of a text behind its last line end. -/
def lastLine (text : List Char) : List Char :=
  (text.reverse.takeWhile fun c => !endsLine c).reverse

/-- A carriage return ends no line by itself when a line feed follows. -/
theorem lineEnds_cons (c : Char) (cs : List Char) : lineEnds (c :: cs) =
    (if endsLine c ∧ ¬ (c = '\r' ∧ cs.head? = some '\n') then 1 else 0) + lineEnds cs := by
  by_cases h : c = '\r' ∧ cs.head? = some '\n'
  · obtain ⟨rfl, hcs⟩ := h
    obtain ⟨cs, rfl⟩ : ∃ cs', cs = '\n' :: cs' := by
      cases cs with
      | nil => cases hcs
      | cons c cs => cases hcs; exact ⟨cs, rfl⟩
    rw [lineEnds, lineEnds.eq_3 _ _ (by simp)]
    simp [endsLine]
  · have hne : ∀ cs', c = '\r' → cs = '\n' :: cs' → False := by
      rintro cs' rfl rfl
      exact h ⟨rfl, rfl⟩
    rw [lineEnds.eq_3 _ _ hne]
    by_cases hc : endsLine c = true <;> simp [hc, h, Nat.add_comm]

/-- A line feed ends no line by itself when it follows a carriage return. -/
theorem lineEnds_concat (cs : List Char) (c : Char) : lineEnds (cs ++ [c]) = lineEnds cs +
    if endsLine c ∧ ¬ (c = '\n' ∧ cs.getLast? = some '\r') then 1 else 0 := by
  induction cs with
  | nil => simp [lineEnds_cons, lineEnds]
  | cons c' cs ih =>
    rw [List.cons_append, lineEnds_cons, ih, lineEnds_cons]
    cases cs with
    | nil =>
      by_cases h : c' = '\r' ∧ c = '\n'
      · obtain ⟨rfl, rfl⟩ := h
        decide
      · have h' : ¬ (c = '\n' ∧ c' = '\r') := fun hc => h hc.symm
        simp [lineEnds, h, h']
    | cons c'' cs => simp [Nat.add_assoc]

theorem lastLine_concat (cs : List Char) (c : Char) :
    lastLine (cs ++ [c]) = if endsLine c then [] else lastLine cs ++ [c] := by
  rw [lastLine, List.reverse_concat, List.takeWhile_cons]
  cases endsLine c <;> simp [lastLine]

end Text

/-- The position behind a text. -/
def Position.behind (before : List Char) : Position where
  offset := Text.byteSize before
  line := 1 + Text.lineEnds before
  column := 1 + (Text.lastLine before).length

namespace Mark

theorem next_eq (m : Mark) (c : Char) : m.next c =
    ⟨m.line + if Text.endsLine c ∧ ¬ (c = '\n' ∧ m.afterReturn) then 1 else 0,
      if Text.endsLine c then 1 else m.column + 1, c = '\r'⟩ := by
  by_cases hn : c = '\n'
  · subst hn
    cases h : m.afterReturn <;> simp [next, lineFeed, Text.endsLine, h]
  by_cases hr : c = '\r'
  · subst hr
    simp [next, carriageReturn, Text.endsLine]
  by_cases hs : c = '\u2028' ∨ c = '\u2029'
  · have hends : Text.endsLine c = true := by simpa [Text.endsLine, hn, hr] using hs
    simp [next, separator, hends, hn, hr, hs]
  · have hends : Text.endsLine c = false := by simpa [Text.endsLine, hn, hr] using hs
    simp [next, along, hends, hn, hr, hs]

/-- The mark that is reached by the characters of a text is the position behind it. -/
theorem foldl_next (cs : List Char) : cs.foldl next start =
    ⟨(Position.behind cs).line, (Position.behind cs).column, cs.getLast? = some '\r'⟩ := by
  induction cs using List.reverseRecOn with
  | nil => rfl
  | append_singleton cs c ih =>
    rw [List.foldl_append, ih, List.foldl_cons, List.foldl_nil, next_eq]
    simp only [Position.behind, Text.lineEnds_concat, Text.lastLine_concat, List.getLast?_concat,
      decide_eq_true_eq, Option.some.injEq, Nat.add_assoc]
    cases Text.endsLine c <;> simp

end Mark

namespace Tracker

/-- The positions of offsets that are asked for one after another. -/
def positions (t : Tracker) : List Nat → List Position
  | [] => []
  | offset :: offsets => (t.position offset).1 :: (t.position offset).2.positions offsets

variable {input : Input}

theorem byteSize_takeBytes {offset : Nat}
    (h : input.isBoundary offset = true ∨ input.size ≤ offset) :
    Text.byteSize (Text.takeBytes (min offset input.size) input.chars) = min offset input.size := by
  rcases h with h | h
  · obtain ⟨ys, hys⟩ := Input.isBoundary_iff.mp h
    rw [Nat.min_eq_left (Input.le_size hys)]
    obtain ⟨xs, hchars, rfl⟩ := Input.rest?_eq_some.mp hys
    rw [hchars, Text.takeBytes_append]
  · have := Text.takeBytes_append input.chars []
    rw [List.append_nil] at this
    rw [Nat.min_eq_right h, input.size_eq, this]

/-- Whatever it was asked for before, a tracker answers with the position behind the text before
the offset. -/
theorem Reads.positions_eq {t : Tracker} (h : t.Reads input) {offsets : List Nat}
    (hoffsets : ∀ offset ∈ offsets, input.isBoundary offset = true ∨ input.size ≤ offset) :
    t.positions offsets = offsets.map fun offset =>
      Position.behind (Text.takeBytes (min offset input.size) input.chars) := by
  induction offsets generalizing t with
  | nil => rfl
  | cons offset offsets ih =>
    obtain ⟨hoffset, hoffsets⟩ := List.forall_mem_cons.mp hoffsets
    obtain ⟨hposition, hnext⟩ := h.position_eq offset
    have hbehind : (t.position offset).1 =
        Position.behind (Text.takeBytes (min offset input.size) input.chars) := by
      rw [hposition, Mark.foldl_next, Position.mk.injEq]
      exact ⟨(byteSize_takeBytes hoffset).symm, rfl, rfl⟩
    rw [positions, List.map_cons, hbehind, ih hnext hoffsets]

/-- A tracker answers each of several questions, in whatever order they are asked, with the position
behind the text before the offset, or behind the whole text for an offset past its end. -/
theorem positions_ofInput (input : Input) (offsets : List Nat)
    (h : ∀ offset ∈ offsets, input.isBoundary offset = true ∨ input.size ≤ offset) :
    (ofInput input).positions offsets = offsets.map fun offset =>
      Position.behind (Text.takeBytes (min offset input.size) input.chars) :=
  (reads_ofInput input).positions_eq h

/-- Between a carriage return and a line feed, behind them, before and behind a separator, back to
the start, and behind an arrow that has the first byte of a separator. -/
theorem positions_mixed :
    let input := Input.ofChars ['a', '\r', '\n', 'é', '\u2028', '\u2192', 'b']
    let offsets := [2, 3, 5, 8, 2, 0, 99, 11, 3]
    (∀ offset ∈ offsets, input.isBoundary offset = true ∨ input.size ≤ offset) ∧
      (ofInput input).positions offsets =
        [⟨2, 2, 1⟩, ⟨3, 2, 1⟩, ⟨5, 2, 2⟩, ⟨8, 3, 1⟩, ⟨2, 2, 1⟩, ⟨0, 1, 1⟩, ⟨12, 3, 3⟩, ⟨11, 3, 2⟩,
          ⟨3, 2, 1⟩] := by
  intro input offsets
  have hoffsets : ∀ offset ∈ offsets, input.isBoundary offset = true ∨ input.size ≤ offset := by
    decide
  refine ⟨hoffsets, ?_⟩
  rw [positions_ofInput input offsets hoffsets]
  decide

end Tracker

end PegMachine
