import PegMachine.Proofs.ClassPatterns
import PegMachine.Proofs.Lowering
import PegMachine.Proofs.Movement

/-!
# How much terminals take

A character class and the wildcard take one character. A literal that is not empty takes at least
one, and just as many as it has where lower case neither lengthens nor shortens a text.
-/

namespace PegMachine

namespace Text

/-- A text of as many characters is needed, if each of them has a lower case of one. -/
theorem length_le_of_startsWithLowered {expected text : List Char}
    (htext : ∀ c ∈ text, (Unicode.lowerChar c).length = 1)
    (h : startsWithLowered expected text = true) : expected.length ≤ text.length := by
  obtain ⟨taken, htaken, rfl⟩ := startsWithLowered_iff.mp h
  rw [Unicode.length_lowerEach, Unicode.dotted_eq_zero fun c hc => htext c (htaken.subset hc)]
  exact htaken.length_le

end Text

namespace Peg

variable {input : Input} {a : Nat} {cs text : List Char}

/-! ## Single characters -/

theorem length_take_one (h : cs ≠ []) : (cs.take 1).length = 1 := by
  cases cs with
  | nil => exact absurd rfl h
  | cons c cs => rfl

theorem length_taken?_any (ha : input.rest? a = some cs) (h : taken? input a .any = some text) :
    text.length = 1 := by
  simp only [taken?, Input.rest_eq ha, Input.lt_size_iff ha] at h
  split at h
  · next hne =>
    cases h
    exact length_take_one hne
  · cases h

/-- A character class takes one character. -/
theorem length_taken?_charClass {parts : List ClassPart} {inverted ignoreCase : Bool} {raw : String}
    (ha : input.rest? a = some cs)
    (h : taken? input a (.charClass parts inverted ignoreCase raw) = some text) :
    text.length = 1 := by
  simp only [taken?, Input.rest_eq ha, Input.lt_size_iff ha] at h
  split at h
  · split at h
    · next hmatch =>
      cases h
      exact length_take_one (by simpa using (Bool.and_eq_true_iff.mp hmatch).2)
    · cases h
  · next hparts =>
    split at h
    · next hmatch =>
      cases h
      refine length_take_one ?_
      rintro rfl
      -- At the end of the input the pattern of the class does not match.
      obtain ⟨r, hr, hmatch⟩ := Option.any_eq_true _ _ |>.mp hmatch
      rw [Regex.isMatch_classPattern_nil (by simpa using hparts) hr] at hmatch
      cases hmatch
    · cases h

/-! ## Literals -/

/-- A literal takes as many characters as it has, if lower case does not lengthen any text here. -/
theorem length_taken?_literal {value : String} {ignoreCase : Bool} (ha : input.rest? a = some cs)
    (hsize : input.chars.length < 2 ^ 32)
    (hinput : ∀ c ∈ input.chars, (Unicode.lowerChar c).length = 1)
    (hvalue : ignoreCase = true → ∀ c ∈ value.toList, (Unicode.lowerChar c).length = 1)
    (h : taken? input a (.literal value ignoreCase) = some text) :
    text.length = value.length ∧ value.length < 2 ^ 32 := by
  obtain ⟨before, hchars, -⟩ := Input.rest?_eq_some.mp ha
  have hcs : cs.length < 2 ^ 32 := by
    rw [hchars, List.length_append] at hsize
    omega
  simp only [taken?, Input.rest_eq ha] at h
  split at h
  · next hempty =>
    cases h
    rw [String.isEmpty_iff.mp hempty]
    exact ⟨rfl, by decide⟩
  · split at h
    · next hic =>
      split at h
      · next hstarts =>
        cases h
        have hlength : value.length ≤ cs.length := by
          have hle := Text.length_le_of_startsWithLowered (fun c hc => hinput c (by
            rw [hchars]
            exact List.mem_append_right _ hc)) hstarts
          rw [Unicode.length_lowerText, Unicode.dotted_eq_zero (hvalue hic)] at hle
          rwa [String.length_toList] at hle
        have hlt : value.length < 2 ^ 32 := by omega
        rw [List.length_take, UInt32.toNat_ofNat_of_lt' hlt]
        exact ⟨by omega, hlt⟩
      · cases h
    · split at h
      · next hprefix =>
        cases h
        have hle := (List.isPrefixOf_iff_prefix.mp hprefix).length_le
        rw [String.length_toList] at hle ⊢
        exact ⟨rfl, by omega⟩
      · cases h

/-! ## Terminals that consume something -/

theorem neverEmpty_of_length_eq {shape : Shape}
    (h : ∀ a cs text, input.rest? a = some cs → taken? input a shape = some text →
      text.length = 1) : NeverEmpty input shape := by
  rintro a cs text ha htaken rfl
  cases h a cs [] ha htaken

theorem neverEmpty_literal {value : String} (ignoreCase : Bool)
    (hvalue : 0 < (UInt32.ofNat value.length).toNat) :
    NeverEmpty input (.literal value ignoreCase) := by
  have hne : value.toList ≠ [] := by
    intro hnil
    rw [← String.length_toList, hnil] at hvalue
    exact absurd hvalue (by decide)
  rintro a cs text ha h rfl
  simp only [taken?, Input.rest_eq ha] at h
  split at h
  · next hempty =>
    rw [String.isEmpty_iff.mp hempty] at hne
    exact hne rfl
  · split at h
    · split at h
      · next hstarts =>
        cases cs with
        | nil =>
          rw [Text.startsWithLowered, List.isEmpty_iff] at hstarts
          exact Unicode.lowerText_ne_nil hne hstarts
        | cons c cs =>
          have hzero := List.take_eq_nil_iff.mp (Option.some.inj h)
          rcases hzero with hzero | hzero
          · rw [hzero] at hvalue
            cases hvalue
          · cases hzero
      · cases h
    · split at h
      · exact hne (Option.some.inj h)
      · cases h

end Peg

end PegMachine
