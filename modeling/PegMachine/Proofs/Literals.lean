import PegMachine.Proofs.Boundaries
import PegMachine.Proofs.Lowering
import PegMachine.Proofs.TerminalCode

/-!
# Literals that ignore case

Such a literal matches where some first characters of what is left have the lower case that is kept
for it. Then it does not take these characters, but as many as its own spelling has. Two spellings
of one lower case differ in length by the capital letters I with a dot above them, so the text that
is taken is the text that was matched just if both have as many of these, or if the text that was
matched is all that is left and has at least as many of them.
-/

namespace PegMachine

open Unicode

namespace Peg

variable {input : Input} {a : Nat} {cs : List Char} {value : String}

theorem taken?_lowered (ha : input.rest? a = some cs) (hvalue : value ≠ "") :
    taken? input a (.literal value true) =
      if Text.startsWithLowered (lowerText value.toList) cs then
        some (cs.take (UInt32.ofNat value.length).toNat)
      else none := by
  rw [taken?, if_neg fun h => hvalue (String.isEmpty_iff.mp h), if_pos rfl, Input.rest_eq ha]

end Peg

namespace Text

/-- The first characters of a text that are as many as another one has are some first characters
with the same lower case, just if neither has more characters that become longer. -/
theorem take_eq_iff {value text cs : List Char} (htext : text <+: cs)
    (hlower : lowerEach text = lowerText value) :
    cs.take value.length = text ↔
      dotted text = dotted value ∨ text = cs ∧ dotted value ≤ dotted text := by
  have hlength : text.length + dotted text = value.length + dotted value := by
    rw [← length_lowerEach, ← length_lowerText, hlower]
  constructor
  · intro htake
    have hmin : min value.length cs.length = text.length := by rw [← List.length_take, htake]
    by_cases hle : value.length ≤ cs.length
    · left
      omega
    · right
      exact ⟨htext.eq_of_length (by omega), by omega⟩
  · rintro (hsame | ⟨rfl, hle⟩)
    · rw [show value.length = text.length by omega]
      exact (List.prefix_iff_eq_take.mp htext).symm
    · exact List.take_of_length_le (by omega)

end Text

variable {σ : Type} {E : Setting σ} {s : State σ} {p q : Pools} {code : Code} {g : Grammar}
  {f : Facts} {depth height : Nat} {id : NodeId} {scope scope' : Scope} {action? : Option String}
  {value : String} {cs : List Char}

namespace Generate

/-- A literal that ignores case matches just where first characters of what is left have the lower
case of its text, each character turned to lower case on its own, provided that none of its words
ends in a capital sigma; in particular it matches its own text. If a word of it ends in a capital
sigma it does not match its own text. -/
theorem node_matches_lowered (hE : E.program.Addressable)
    (hshape : g.shape id = .literal value true) (hvalue : value ≠ "")
    (h : node g f (depth + 1) id height scope action? p = .ok ((code, scope'), q))
    (hq : E.program.Extends q) (hs : E.input.rest? s.pos = some cs) :
    ∃ accepted : Option (List Char), code.Accepts E s accepted ∧
      (accepted.isSome = true ↔ ∃ text, text <+: cs ∧ lowerEach text = lowerText value.toList) ∧
      (¬EndsWordInSigma value.toList → (value.toList <+: cs → accepted.isSome = true) ∧
        (accepted.isSome = true ↔
          ∃ text, text <+: cs ∧ lowerEach text = lowerEach value.toList)) ∧
      (EndsWordInSigma value.toList → value.toList <+: cs → accepted = none) := by
  have haccepts := literal_accepts hE (node_literal hshape h) hq s
  rw [Peg.taken?_lowered hs hvalue] at haccepts
  refine ⟨_, haccepts, ?_, fun hends => ⟨fun hprefix => ?_, ?_⟩, fun hends hprefix => ?_⟩
  · rw [← Text.startsWithLowered_iff]
    cases Text.startsWithLowered (lowerText value.toList) cs <;> simp
  · rw [if_pos ((Text.startsWithLowered_lowerText_iff hprefix).mpr hends)]
    rfl
  · rw [← lowerText_eq_lowerEach_iff.mpr hends, ← Text.startsWithLowered_iff]
    cases Text.startsWithLowered (lowerText value.toList) cs <;> simp
  · exact if_neg fun hstarts => (Text.startsWithLowered_lowerText_iff hprefix).mp hstarts hends

end Generate

/-- A grammar of one keyword. -/
def keyword : Grammar where
  rules := [{ name := "start", expression := 0 }]
  nodes := #[⟨.literal "If" true, none⟩]

/-- The program of that grammar. -/
def keywordProgram : Program where
  rules := #[⟨"start", false, #[17, 0, 2, 2, 19, 2, 21, 1]⟩]
  constants := #[.string "if", .expected (.literal "If")]
  actions := #[]
  starters := [0]
  defaultStart := 0
  memoize := false
  trace := false
  statistics := false

theorem keywordProgram_addressable : keywordProgram.Addressable := by constructor <;> decide

/-- Code for the keyword is generated, and its constants are in the program. -/
theorem keyword_generated : ∃ r q, Generate.node keyword {} 1 0 0 [] none {} = .ok (r, q) ∧
    keywordProgram.Extends q :=
  Generate.exists_generated (by decide +kernel)

/-- The keyword is found in capital letters. -/
theorem keyword_matches_lowered :
    let E : Setting Unit :=
      { program := keywordProgram, input := .ofString "IF x", handler := .none }
    ∃ code accepted, Code.Accepts E code (E.initial ⟨#[]⟩ ()) accepted ∧
      accepted.isSome = true := by
  intro E
  obtain ⟨⟨code, _⟩, q, hcode, hq⟩ := keyword_generated
  have hends : ¬Unicode.EndsWordInSigma "If".toList := by
    rw [← Unicode.lowerText_eq_lowerEach_iff]
    decide
  obtain ⟨accepted, haccepts, -, hmatches, -⟩ := Generate.node_matches_lowered (E := E)
    (s := E.initial ⟨#[]⟩ ()) keywordProgram_addressable rfl (by decide) hcode hq E.input.rest?_zero
  refine ⟨code, accepted, haccepts, (hmatches hends).2.mpr ⟨['I', 'F'], ⟨[' ', 'x'], rfl⟩, ?_⟩⟩
  decide

namespace Generate

/-- Where a literal of fewer than 2 ^ 32 characters that ignores case matches, it matches one text,
and takes it just if that text has as many capital letters I with a dot above them as the literal,
or is all that is left and has at least as many. -/
theorem node_accepts_matched (hE : E.program.Addressable)
    (hshape : g.shape id = .literal value true) (hvalue : value ≠ "")
    (h : node g f (depth + 1) id height scope action? p = .ok ((code, scope'), q))
    (hq : E.program.Extends q) (hs : E.input.rest? s.pos = some cs)
    (hlength : value.length < 2 ^ 32)
    (hmatch : Text.startsWithLowered (lowerText value.toList) cs = true) :
    ∃ taken text, code.Accepts E s (some taken) ∧ taken <+: cs ∧
      (∀ other, other <+: cs ∧ lowerEach other = lowerText value.toList ↔ other = text) ∧
      (taken = text ↔ dotted text = dotted value.toList ∨
        text = cs ∧ dotted value.toList ≤ dotted text) := by
  obtain ⟨text, htext, hlower⟩ := Text.startsWithLowered_iff.mp hmatch
  have haccepts := literal_accepts hE (node_literal hshape h) hq s
  rw [Peg.taken?_lowered hs hvalue, if_pos hmatch, UInt32.toNat_ofNat_of_lt' hlength,
    ← String.length_toList] at haccepts
  refine ⟨_, text, haccepts, List.take_prefix _ _, fun other => ⟨?_, ?_⟩,
    Text.take_eq_iff htext hlower⟩
  · rintro ⟨hother, hsame⟩
    exact eq_of_lowerEach_eq hother htext (hsame.trans hlower.symm)
  · rintro rfl
    exact ⟨htext, hlower⟩

end Generate

/-- The keyword is taken in capital letters. -/
theorem keyword_accepts_matched :
    let E : Setting Unit :=
      { program := keywordProgram, input := .ofString "IF x", handler := .none }
    ∃ code, Code.Accepts E code (E.initial ⟨#[]⟩ ()) (some ['I', 'F']) := by
  intro E
  obtain ⟨⟨code, _⟩, q, hcode, hq⟩ := keyword_generated
  obtain ⟨taken, text, haccepts, -, hmatched, htaken⟩ := Generate.node_accepts_matched (E := E)
    (s := E.initial ⟨#[]⟩ ()) keywordProgram_addressable rfl (by decide) hcode hq E.input.rest?_zero
    (by decide) (by decide)
  obtain rfl : ['I', 'F'] = text := (hmatched _).mp ⟨⟨[' ', 'x'], rfl⟩, by decide⟩
  obtain rfl := htaken.mpr (.inl (by decide))
  exact ⟨code, haccepts⟩

/-- Of a small letter i with a dot above it only the letter is taken for the capital one. -/
example : Text.startsWithLowered (lowerText [dottedCapitalI]) ['i', combiningDotAbove] = true ∧
    ['i', combiningDotAbove].take [dottedCapitalI].length = ['i'] := by decide

end PegMachine
