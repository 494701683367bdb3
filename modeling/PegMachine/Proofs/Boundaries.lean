import PegMachine.Input

/-!
# Texts between boundaries

A boundary is an offset at which some of the text is left. What follows a boundary leads on to
another one, so the text between two boundaries is well defined, and texts that follow one another
make one text.
-/

namespace PegMachine

namespace Text

theorem getElem?_restsByByte (xs ys : List Char) :
    (restsByByte (xs ++ ys))[byteSize xs]? = some (some ys) := by
  induction xs with
  | nil => cases ys <;> rfl
  | cons c xs ih =>
    have hpos := c.utf8Size_pos
    have hsize : byteSize (c :: xs) = (c.utf8Size - 1) + byteSize xs + 1 := by
      rw [byteSize]
      omega
    rw [hsize, List.cons_append, restsByByte, List.getElem?_cons_succ,
      List.getElem?_append_right (by simp)]
    simpa using ih

/-- What is left at an offset is left after the text before it. -/
theorem eq_append_of_getElem? {text ys : List Char} {offset : Nat}
    (h : (restsByByte text)[offset]? = some (some ys)) :
    ∃ xs, text = xs ++ ys ∧ offset = byteSize xs := by
  induction text generalizing offset with
  | nil =>
    cases offset with
    | zero => cases h; exact ⟨[], rfl, rfl⟩
    | succ offset => cases h
  | cons c cs ih =>
    cases offset with
    | zero => cases h; exact ⟨[], rfl, rfl⟩
    | succ offset =>
      rw [restsByByte, List.getElem?_cons_succ] at h
      by_cases hlt : offset < c.utf8Size - 1
      · -- Inside a character nothing begins.
        rw [List.getElem?_append_left (by simpa using hlt), List.getElem?_replicate] at h
        split at h <;> cases h
      · rw [List.getElem?_append_right (by simpa using hlt), List.length_replicate] at h
        obtain ⟨xs, rfl, hoffset⟩ := ih h
        refine ⟨c :: xs, rfl, ?_⟩
        have hpos := c.utf8Size_pos
        rw [byteSize]
        omega

theorem takeBytes_append (xs ys : List Char) : takeBytes (byteSize xs) (xs ++ ys) = xs := by
  induction xs with
  | nil => cases ys <;> rfl
  | cons c xs ih =>
    have hpos := c.utf8Size_pos
    rw [List.cons_append, takeBytes, byteSize, if_neg (by omega), Nat.add_sub_cancel_left, ih]

/-- Some bytes of a text are taken from its start. -/
theorem takeBytes_prefix (n : Nat) (cs : List Char) : takeBytes n cs <+: cs := by
  induction cs generalizing n with
  | nil => exact List.prefix_rfl
  | cons c cs ih =>
    rw [takeBytes]
    split
    · exact List.nil_prefix
    · exact (List.prefix_cons_inj c).mpr (ih _)

end Text

namespace Input

variable {input : Input} {a b c : Nat} {xs ys zs : List Char}

theorem rest_eq (h : input.rest? a = some xs) : input.rest a = xs := by
  rw [rest, h, Option.getD_some]

theorem rest?_eq_some : input.rest? a = some ys ↔
    ∃ xs, input.chars = xs ++ ys ∧ a = Text.byteSize xs := by
  rw [rest?, input.rests_eq, List.getElem?_toArray, Option.join_eq_some_iff]
  constructor
  · exact Text.eq_append_of_getElem?
  · rintro ⟨xs, hchars, rfl⟩
    rw [hchars]
    exact Text.getElem?_restsByByte xs ys

/-- What follows a boundary leads to the next one. -/
theorem rest?_add (h : input.rest? a = some (xs ++ ys)) :
    input.rest? (a + Text.byteSize xs) = some ys := by
  obtain ⟨before, hchars, rfl⟩ := rest?_eq_some.mp h
  exact rest?_eq_some.mpr ⟨before ++ xs, by rw [hchars, List.append_assoc],
    (Text.byteSize_append _ _).symm⟩

/-- There is a character at a boundary if it is not the end of the input. -/
theorem lt_size_iff (h : input.rest? a = some ys) : a < input.size ↔ ys ≠ [] := by
  obtain ⟨xs, hchars, rfl⟩ := rest?_eq_some.mp h
  rw [input.size_eq, hchars, Text.byteSize_append]
  cases ys with
  | nil => simp [Text.byteSize]
  | cons y ys =>
    have := y.utf8Size_pos
    simp only [Text.byteSize, ne_eq, reduceCtorEq, not_false_eq_true, iff_true]
    omega

theorem le_size (h : input.rest? a = some ys) : a ≤ input.size := by
  obtain ⟨xs, hchars, rfl⟩ := rest?_eq_some.mp h
  rw [input.size_eq, hchars, Text.byteSize_append]
  exact Nat.le_add_right _ _

theorem isBoundary_iff : input.isBoundary a = true ↔ ∃ ys, input.rest? a = some ys :=
  Option.isSome_iff_exists

/-- A text stands between two boundaries. -/
def Spans (input : Input) (a : Nat) (xs : List Char) (b : Nat) : Prop :=
  ∃ ys, input.rest? a = some (xs ++ ys) ∧ b = a + Text.byteSize xs

theorem Spans.rest?_stop (h : input.Spans a xs b) : ∃ ys, input.rest? b = some ys := by
  obtain ⟨ys, ha, rfl⟩ := h
  exact ⟨ys, rest?_add ha⟩

theorem spans_nil (h : input.rest? a = some ys) : input.Spans a [] a := ⟨ys, h, rfl⟩

/-- Texts that follow one another make one text. -/
theorem Spans.append (h : input.Spans a xs b) (h' : input.Spans b zs c) :
    input.Spans a (xs ++ zs) c := by
  obtain ⟨ys, ha, rfl⟩ := h
  obtain ⟨ws, hb, rfl⟩ := h'
  have hys : some (zs ++ ws) = some ys := hb.symm.trans (rest?_add ha)
  cases hys
  refine ⟨ws, by rw [ha, List.append_assoc], ?_⟩
  rw [Text.byteSize_append, Nat.add_assoc]

/-- The text between two boundaries is the slice between them. -/
theorem Spans.slice?_eq (h : input.Spans a xs b) : input.slice? a b = some xs := by
  obtain ⟨ys, ha, rfl⟩ := h
  have hboundary : input.isBoundary (a + Text.byteSize xs) = true :=
    isBoundary_iff.mpr ⟨ys, rest?_add ha⟩
  rw [slice?, hboundary, ha, Option.map_some, Nat.add_sub_cancel_left, Text.takeBytes_append,
    if_pos (by simp)]

/-- A text ends after it begins, unless it is empty. -/
theorem Spans.le (h : input.Spans a xs b) : a ≤ b ∧ (0 < xs.length → a < b) := by
  obtain ⟨ys, -, rfl⟩ := h
  refine ⟨Nat.le_add_right _ _, fun hlength => ?_⟩
  cases xs with
  | nil => cases hlength
  | cons x xs =>
    have := x.utf8Size_pos
    rw [Text.byteSize]
    omega

end Input

end PegMachine
