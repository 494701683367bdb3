import Mathlib.Data.List.Infix
import PegMachine.Run.State

/-!
# Lower case of a text and of its characters

The lower case of a text is that of its characters one after the other, except where a word ends in
a capital sigma. A literal that ignores case is kept in lower case as a text, while the input is
turned to lower case character by character. So such a literal matches its own text just if none of
its words ends in a capital sigma.

Only the capital I with a dot above becomes longer in lower case, by one character. So texts with
the same lower case are as long as each other just if they have as many of these.
-/

namespace PegMachine

namespace Unicode

/-- The lower case of the characters of a text, each on its own. -/
def lowerEach (text : List Char) : List Char := text.flatMap lowerChar

/-- A word of a text ends in a capital sigma. -/
def EndsWordInSigma (text : List Char) : Prop :=
  ∃ before after, text = before ++ capitalSigma :: after ∧
    meetsCased before.reverse = true ∧ meetsCased after = false

/-- The number of characters of a text that become longer in lower case. -/
def dotted (text : List Char) : Nat := text.count dottedCapitalI

variable {a b text : List Char}

@[simp] theorem lowerEach_nil : lowerEach [] = [] := rfl

@[simp] theorem lowerEach_cons (c : Char) (text : List Char) :
    lowerEach (c :: text) = lowerChar c ++ lowerEach text := List.flatMap_cons

@[simp] theorem lowerEach_append (a b : List Char) :
    lowerEach (a ++ b) = lowerEach a ++ lowerEach b := List.flatMap_append

theorem lowerChar_ne_nil (c : Char) : lowerChar c ≠ [] := by
  unfold lowerChar
  split
  · exact List.cons_ne_nil _ _
  · split <;> exact List.cons_ne_nil _ _

theorem lowerEach_ne_nil (h : text ≠ []) : lowerEach text ≠ [] := by
  obtain ⟨c, rest, rfl⟩ := List.exists_cons_of_ne_nil h
  rw [lowerEach_cons]
  exact List.append_ne_nil_of_left_ne_nil (lowerChar_ne_nil c) _

theorem lowerChar_capitalSigma : lowerChar capitalSigma = [smallSigma] := by decide

/-! ## The end of a word -/

/-- What stands before a text decides with it where words end. -/
theorem lowerFrom_eq_lowerEach_iff (before : List Char) :
    lowerFrom before text = lowerEach text ↔
      ∀ front after, text = front ++ capitalSigma :: after →
        ¬(meetsCased (front.reverse ++ before) = true ∧ meetsCased after = false) := by
  induction text generalizing before with
  | nil => simp [lowerFrom]
  | cons c rest ih =>
    -- A word ends in a capital sigma here, or further on with this character in front.
    have hsplit : (∀ front after, c :: rest = front ++ capitalSigma :: after →
        ¬(meetsCased (front.reverse ++ before) = true ∧ meetsCased after = false)) ↔
        (c = capitalSigma → ¬(meetsCased before = true ∧ meetsCased rest = false)) ∧
          ∀ front after, rest = front ++ capitalSigma :: after →
            ¬(meetsCased (front.reverse ++ c :: before) = true ∧ meetsCased after = false) := by
      constructor
      · intro h
        refine ⟨fun hc => h [] rest (by rw [hc]; rfl), fun front after hrest => ?_⟩
        have := h (c :: front) after (by rw [hrest]; rfl)
        rwa [List.reverse_cons, List.append_assoc] at this
      · rintro ⟨hfirst, hrest⟩ (_ | ⟨d, front⟩) after heq
        · obtain ⟨rfl, rfl⟩ := List.cons.inj heq
          exact hfirst rfl
        · obtain ⟨rfl, hfront⟩ := List.cons.inj heq
          have := hrest front after hfront
          rwa [List.reverse_cons, List.append_assoc]
    rw [hsplit, ← ih (c :: before), lowerFrom, lowerEach_cons]
    by_cases hc : c = capitalSigma
    · subst hc
      -- The two ways to write it in lower case differ, so they agree just if no word ends here.
      have hne : finalSigma ≠ smallSigma := by decide
      rw [if_pos rfl, lowerChar_capitalSigma]
      cases meetsCased before <;> cases meetsCased rest <;> simp [hne]
    · rw [if_neg hc, List.append_cancel_left_eq]
      exact ⟨fun h => ⟨fun h' => absurd h' hc, h⟩, (·.2)⟩

/-- The lower case of a text is that of its characters just if no word ends in a capital sigma. -/
theorem lowerText_eq_lowerEach_iff : lowerText text = lowerEach text ↔ ¬EndsWordInSigma text := by
  rw [lowerText, lowerFrom_eq_lowerEach_iff]
  simp only [List.append_nil, EndsWordInSigma, not_exists, not_and]

/-! ## Lengths -/

theorem length_lowerChar (c : Char) : (lowerChar c).length = 1 + dotted [c] := by
  rw [dotted, List.count_singleton]
  unfold lowerChar
  split
  · next h =>
    have hne : (c == dottedCapitalI) = false := by
      rw [beq_eq_false_iff_ne]
      rintro rfl
      exact absurd h (by decide)
    rw [hne]
    rfl
  · split
    · next h =>
      rw [h]
      rfl
    · next h =>
      rw [beq_false_of_ne h]
      rfl

theorem dotted_cons (c : Char) (text : List Char) :
    dotted (c :: text) = dotted [c] + dotted text := by
  rw [← List.singleton_append]
  exact List.count_append

theorem length_lowerEach (text : List Char) :
    (lowerEach text).length = text.length + dotted text := by
  induction text with
  | nil => rfl
  | cons c rest ih =>
    rw [lowerEach_cons, List.length_append, length_lowerChar, ih, List.length_cons,
      dotted_cons c rest]
    omega

theorem length_lowerText (text : List Char) :
    (lowerText text).length = text.length + dotted text := by
  rw [← length_lowerEach, lowerText]
  generalize [] = before
  induction text generalizing before with
  | nil => rfl
  | cons c rest ih =>
    rw [lowerFrom, lowerEach_cons, List.length_append, List.length_append, ih]
    split
    · next hc =>
      rw [hc, lowerChar_capitalSigma]
      rfl
    · rfl

theorem lowerText_ne_nil (h : text ≠ []) : lowerText text ≠ [] := by
  have hpos := List.length_pos_of_ne_nil h
  refine List.ne_nil_of_length_pos ?_
  rw [length_lowerText]
  omega

theorem dotted_eq_zero (h : ∀ c ∈ text, (lowerChar c).length = 1) : dotted text = 0 := by
  refine List.count_eq_zero.mpr fun hmem => ?_
  exact absurd (h _ hmem) (by decide)

/-! ## Beginnings -/

/-- Of the beginnings of a text no two have the same lower case. -/
theorem eq_of_lowerEach_eq (ha : a <+: text) (hb : b <+: text) (h : lowerEach a = lowerEach b) :
    a = b := by
  have hsame {a b : List Char} (hab : a <+: b) (h : lowerEach a = lowerEach b) : a = b := by
    obtain ⟨more, rfl⟩ := hab
    rw [lowerEach_append, List.self_eq_append_right] at h
    by_cases hmore : more = []
    · rw [hmore, List.append_nil]
    · exact absurd h (lowerEach_ne_nil hmore)
  rcases List.prefix_or_prefix_of_prefix ha hb with hab | hba
  · exact hsame hab h
  · exact (hsame hba h.symm).symm

end Unicode

open Unicode

namespace Text

variable {expected text : List Char}

theorem strip?_eq_some {cs text rest : List Char} :
    strip? cs text = some rest ↔ text = cs ++ rest := by
  induction cs generalizing text with
  | nil => simp [strip?, eq_comm]
  | cons c cs ih =>
    cases text with
    | nil => simp [strip?]
    | cons d ds =>
      rw [strip?]
      split
      · next h => rw [ih, h, List.cons_append, List.cons.injEq, and_iff_right rfl]
      · next h =>
        refine ⟨nofun, fun heq => absurd ?_ h⟩
        exact (List.cons.inj heq).1.symm

/-- A text is found in lower case just if it is the lower case of some first characters. -/
theorem startsWithLowered_iff :
    startsWithLowered expected text = true ↔
      ∃ taken, taken <+: text ∧ lowerEach taken = expected := by
  induction text generalizing expected with
  | nil =>
    rw [startsWithLowered, List.isEmpty_iff]
    constructor
    · rintro rfl
      exact ⟨[], List.prefix_rfl, rfl⟩
    · rintro ⟨taken, htaken, rfl⟩
      rw [List.prefix_nil.mp htaken]
      rfl
  | cons c rest ih =>
    rw [startsWithLowered]
    split
    · next hempty =>
      rw [List.isEmpty_iff.mp hempty]
      exact ⟨fun _ => ⟨[], List.nil_prefix, rfl⟩, fun _ => rfl⟩
    · next hmore =>
      constructor
      · intro h
        split at h
        · cases h
        · next left hstrip =>
          obtain ⟨taken, htaken, hlower⟩ := ih.mp h
          refine ⟨c :: taken, (List.prefix_cons_inj c).mpr htaken, ?_⟩
          rw [lowerEach_cons, hlower, strip?_eq_some.mp hstrip]
      · rintro ⟨_ | ⟨d, taken⟩, htaken, hlower⟩
        · exact absurd (List.isEmpty_iff.mpr hlower.symm) hmore
        · obtain ⟨rfl, hrest⟩ := List.cons_prefix_cons.mp htaken
          rw [strip?_eq_some.mpr (hlower.symm.trans (lowerEach_cons d taken))]
          exact ih.mpr ⟨taken, hrest, rfl⟩

/-- A text is found in its own lower case just if none of its words ends in a capital sigma. -/
theorem startsWithLowered_lowerText_iff {value : List Char} (h : value <+: text) :
    startsWithLowered (lowerText value) text = true ↔ ¬EndsWordInSigma value := by
  rw [startsWithLowered_iff, ← lowerText_eq_lowerEach_iff]
  constructor
  · rintro ⟨taken, htaken, hlower⟩
    -- Both are the first characters of the same lower case, and there are as many of them.
    have hlength : (lowerText value).length = (lowerEach value).length := by
      rw [length_lowerText, length_lowerEach]
    have hprefix : lowerEach taken <+: lowerEach text ∧ lowerEach value <+: lowerEach text := by
      obtain ⟨rest, rfl⟩ := htaken
      obtain ⟨rest', hrest'⟩ := h
      exact ⟨⟨lowerEach rest, (lowerEach_append _ _).symm⟩, lowerEach rest', by
        rw [← hrest', lowerEach_append]⟩
    rw [hlower] at hprefix
    exact (List.prefix_of_prefix_length_le hprefix.1 hprefix.2 hlength.le).eq_of_length hlength
  · exact fun hsame => ⟨value, h, hsame.symm⟩

end Text

end PegMachine
