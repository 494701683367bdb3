import PegMachine.Failure

/-!
# Escaped text is unambiguous

Messages put literals and found texts between quotes. A reader who only knows that a backslash
escapes the character behind it comes to the right closing quote, whatever follows in the message;
a reader who knows the forms behind a backslash gets the text back. So no two texts are written in
the same way, and no two literals are described in the same way.
-/

namespace PegMachine

namespace Text

/-! ## Readers -/

/-- What stands in front of the first quote that no backslash escapes, and what stands behind it. -/
def closing? : List Char → Option (List Char × List Char)
  | [] => none
  | '"' :: rest => some ([], rest)
  | '\\' :: c :: rest => (closing? rest).map fun (text, rest) => ('\\' :: c :: text, rest)
  | c :: rest => (closing? rest).map fun (text, rest) => (c :: text, rest)

/-- The character with the number that some digits in base sixteen write. -/
def ofHex (digits : List Char) : Char :=
  Char.ofNat (digits.foldl (fun n c => n * 16 + (Json.hexValue? c).getD 0) 0)

/-- The character that a single one stands for behind a backslash. -/
def ofShort (c : Char) : Char :=
  if c = 'b' then '\x08'
  else if c = 't' then '\t'
  else if c = 'n' then '\n'
  else if c = 'f' then '\x0C'
  else if c = 'r' then '\r'
  else c

/-- The text that is written in an escaped form. -/
def unescape : List Char → List Char
  | '\\' :: 'x' :: a :: b :: rest => ofHex [a, b] :: unescape rest
  | '\\' :: 'u' :: a :: b :: c :: d :: rest => ofHex [a, b, c, d] :: unescape rest
  | '\\' :: c :: rest => ofShort c :: unescape rest
  | c :: rest => c :: unescape rest
  | [] => []

example : unescape "\\\\\\x0B\\u20AC\\n".toList = ['\\', '\x0B', '€', '\n'] := by decide

/-! ## The forms of a character -/

/-- How a character is written between quotes. -/
inductive Form (c : Char) : List Char → Prop where
  /-- The character stands for itself. -/
  | itself (hslash : c ≠ '\\') (hquote : c ≠ '"') (hlow : 0x20 ≤ c.toNat)
    (hrange : ¬(0x80 ≤ c.toNat ∧ c.toNat ≤ 0xFFFF)) : Form c [c]
  /-- One character behind a backslash. -/
  | short (e : Char) (he : e ∈ ['\\', '"', 'b', 't', 'n', 'f', 'r']) (hc : ofShort e = c) :
    Form c ['\\', e]
  /-- Two digits in base sixteen. -/
  | byte (hle : c.toNat ≤ 0xFF) : Form c ('\\' :: 'x' :: hexDigits 2 c.toNat)
  /-- Four digits in base sixteen. -/
  | unit (hle : c.toNat ≤ 0xFFFF) : Form c ('\\' :: 'u' :: hexDigits 4 c.toNat)

theorem escapeChar_form (c : Char) : Form c (escapeChar c) := by
  rw [escapeChar]
  split
  · next h => exact .short '\\' (by decide) h.symm
  split
  · next h => exact .short '"' (by decide) h.symm
  split
  · next h => exact .short 'b' (by decide) h.symm
  split
  · next h => exact .short 't' (by decide) h.symm
  split
  · next h => exact .short 'n' (by decide) h.symm
  split
  · next h => exact .short 'f' (by decide) h.symm
  split
  · next h => exact .short 'r' (by decide) h.symm
  split
  · exact .byte (by omega)
  split
  · exact .unit (by omega)
  · next hslash hquote _ _ _ _ _ hbyte hunit =>
    exact .itself hslash hquote (by omega) (by omega)

theorem hexDigit_spec : ∀ n < 16, Json.hexValue? (hexDigit n) = some n ∧
    0x30 ≤ (hexDigit n).toNat ∧ (hexDigit n).toNat ≤ 0x46 := by decide

theorem mem_hexDigits {width n : Nat} {c : Char} (h : c ∈ hexDigits width n) :
    0x30 ≤ c.toNat ∧ c.toNat ≤ 0x46 := by
  induction width generalizing n with
  | zero => cases h
  | succ width ih =>
    rcases List.mem_append.mp h with h | h
    · exact ih h
    · rw [List.mem_singleton.mp h]
      exact (hexDigit_spec _ (Nat.mod_lt n (by decide))).2

/-- The digits of a number write the number, as far as there is room for it. -/
theorem foldl_hexDigits (width n : Nat) :
    (hexDigits width n).foldl (fun n c => n * 16 + (Json.hexValue? c).getD 0) 0 =
      n % Nat.pow 16 width := by
  induction width generalizing n with
  | zero => exact (Nat.mod_one n).symm
  | succ width ih =>
    have hdigit := (hexDigit_spec (n % 16) (Nat.mod_lt n (by decide))).1
    have hpow : Nat.pow 16 (width + 1) = 16 * Nat.pow 16 width := Nat.mul_comm _ _
    rw [hexDigits, List.foldl_append, ih, List.foldl_cons, List.foldl_nil, hdigit,
      Option.getD_some, hpow, Nat.mod_mul]
    omega

theorem ofHex_hexDigits {width : Nat} {c : Char} (h : c.toNat < Nat.pow 16 width) :
    ofHex (hexDigits width c.toNat) = c := by
  rw [ofHex, foldl_hexDigits, Nat.mod_eq_of_lt h, Char.ofNat_toNat]

variable {c : Char} {written : List Char}

/-- A form tells its character, whatever stands behind it. -/
theorem Form.unescape_append (h : Form c written) (rest : List Char) :
    unescape (written ++ rest) = c :: unescape rest := by
  cases h with
  | itself hslash =>
    rw [List.singleton_append, unescape]
    · rintro _ _ _ rfl
      exact absurd rfl hslash
    · rintro _ _ _ _ _ rfl
      exact absurd rfl hslash
    · rintro _ _ rfl
      exact absurd rfl hslash
  | short e he hc =>
    subst hc
    simp only [List.mem_cons, List.not_mem_nil, or_false] at he
    rcases he with rfl | rfl | rfl | rfl | rfl | rfl | rfl <;> rfl
  | byte hle =>
    have hchar : ofHex (hexDigits 2 c.toNat) = c := ofHex_hexDigits (Nat.lt_succ_of_le hle)
    exact congrArg (· :: unescape rest) hchar
  | unit hle =>
    have hchar : ofHex (hexDigits 4 c.toNat) = c := ofHex_hexDigits (Nat.lt_succ_of_le hle)
    exact congrArg (· :: unescape rest) hchar

/-- Characters that are no quotes and no backslashes are passed by. -/
theorem closing?_append {cs : List Char} (h : ∀ c ∈ cs, c ≠ '\\' ∧ c ≠ '"') (rest : List Char) :
    closing? (cs ++ rest) = (closing? rest).map fun (text, rest) => (cs ++ text, rest) := by
  induction cs with
  | nil => simp
  | cons c cs ih =>
    obtain ⟨⟨hslash, hquote⟩, hcs⟩ := List.forall_mem_cons.mp h
    rw [List.cons_append, closing?, ih hcs, Option.map_map]
    · rfl
    · exact hquote
    · rintro _ _ rfl
      exact absurd rfl hslash

theorem closing?_hexDigits (width n : Nat) (rest : List Char) :
    closing? (hexDigits width n ++ rest) =
      (closing? rest).map fun (text, rest) => (hexDigits width n ++ text, rest) := by
  refine closing?_append (fun c hc => ?_) rest
  obtain ⟨hle, hge⟩ := mem_hexDigits hc
  constructor <;> rintro rfl
  · exact absurd hge (by decide)
  · exact absurd hle (by decide)

/-- No quote in a form closes a text. -/
theorem Form.closing?_append (h : Form c written) (rest : List Char) : closing? (written ++ rest) =
    (closing? rest).map fun (text, rest) => (written ++ text, rest) := by
  cases h with
  | itself hslash hquote =>
    exact Text.closing?_append (List.forall_mem_singleton.mpr ⟨hslash, hquote⟩) rest
  | short e he hc => rfl
  | byte hle =>
    rw [List.cons_append, List.cons_append, closing?, closing?_hexDigits, Option.map_map]
    rfl
  | unit hle =>
    rw [List.cons_append, List.cons_append, closing?, closing?_hexDigits, Option.map_map]
    rfl

/-- Characters that may stand behind a backslash are plain ones. -/
theorem plain_of_mem {e : Char} (he : e ∈ ['\\', '"', 'b', 't', 'n', 'f', 'r', 'x', 'u']) :
    0x20 ≤ e.toNat ∧ ¬(0x80 ≤ e.toNat ∧ e.toNat ≤ 0xFFFF) := by
  simp only [List.mem_cons, List.not_mem_nil, or_false] at he
  rcases he with rfl | rfl | rfl | rfl | rfl | rfl | rfl | rfl | rfl <;> decide

/-- Forms have no control characters, and nothing from U+0080 to U+FFFF. -/
theorem Form.plain (h : Form c written) :
    ∀ x ∈ written, 0x20 ≤ x.toNat ∧ ¬(0x80 ≤ x.toNat ∧ x.toNat ≤ 0xFFFF) := by
  have hhex (e : Char) (he : e ∈ ['\\', '"', 'b', 't', 'n', 'f', 'r', 'x', 'u']) (width n : Nat) :
      ∀ x ∈ '\\' :: e :: hexDigits width n,
        0x20 ≤ x.toNat ∧ ¬(0x80 ≤ x.toNat ∧ x.toNat ≤ 0xFFFF) := by
    refine List.forall_mem_cons.mpr ⟨plain_of_mem (by decide),
      List.forall_mem_cons.mpr ⟨plain_of_mem he, fun x hx => ?_⟩⟩
    have := mem_hexDigits hx
    omega
  cases h with
  | itself _ _ hlow hrange => exact List.forall_mem_singleton.mpr ⟨hlow, hrange⟩
  | short e he =>
    refine List.forall_mem_cons.mpr ⟨plain_of_mem (by decide), List.forall_mem_singleton.mpr ?_⟩
    exact plain_of_mem (List.mem_append_left ['x', 'u'] he)
  | byte hle => exact hhex 'x' (by decide) 2 _
  | unit hle => exact hhex 'u' (by decide) 4 _

/-! ## Texts -/

theorem toList_escape (s : String) : (escape s).toList = s.toList.flatMap escapeChar :=
  String.toList_ofList

theorem unescape_escape (s : String) : unescape (escape s).toList = s.toList := by
  rw [toList_escape]
  induction s.toList with
  | nil => rfl
  | cons c cs ih => rw [List.flatMap_cons, (escapeChar_form c).unescape_append, ih]

theorem closing?_escape (s : String) (rest : List Char) : closing? ((escape s).toList ++ rest) =
    (closing? rest).map fun (text, rest) => ((escape s).toList ++ text, rest) := by
  rw [toList_escape]
  induction s.toList with
  | nil => simp
  | cons c cs ih =>
    rw [List.flatMap_cons, List.append_assoc, (escapeChar_form c).closing?_append, ih,
      Option.map_map]
    simp [Function.comp_def]

theorem escape_inj {s t : String} : escape s = escape t ↔ s = t := by
  refine ⟨fun h => String.toList_inj.mp ?_, congrArg escape⟩
  rw [← unescape_escape s, h, unescape_escape]

theorem toList_inQuotes (s : String) :
    (inQuotes s).toList = '"' :: ((escape s).toList ++ ['"']) := by
  simp [inQuotes]

theorem inQuotes_inj {s t : String} : inQuotes s = inQuotes t ↔ s = t := by
  rw [← String.toList_inj, toList_inQuotes, toList_inQuotes, List.cons_inj_right,
    List.append_cancel_right_eq, String.toList_inj, escape_inj]

/-- Escaped text can be read in one way only. Different texts are written differently. There are no
control characters in it and nothing from U+0080 to U+FFFF. No quote in it closes it, so that a text
in quotes ends at its own closing quote, whatever follows; and different literals have different
descriptions. -/
theorem escape_unambiguous (s : String) :
    (∀ t, escape s = escape t ↔ s = t) ∧
    (∀ c ∈ (escape s).toList, 0x20 ≤ c.toNat ∧ ¬(0x80 ≤ c.toNat ∧ c.toNat ≤ 0xFFFF)) ∧
    closing? (escape s).toList = none ∧
    (∀ rest, ∃ inside, (inQuotes s).toList ++ rest = '"' :: inside ∧
      closing? inside = some ((escape s).toList, rest)) ∧
    ∀ t, (Expectation.literal s).description = (Expectation.literal t).description ↔ s = t := by
  refine ⟨fun t => escape_inj, fun x hx => ?_, ?_,
    fun rest => ⟨(escape s).toList ++ '"' :: rest, ?_, ?_⟩, fun t => inQuotes_inj⟩
  · rw [toList_escape] at hx
    obtain ⟨c, -, hx⟩ := List.mem_flatMap.mp hx
    exact (escapeChar_form c).plain x hx
  · have hclosing := closing?_escape s []
    rwa [List.append_nil] at hclosing
  · simp [toList_inQuotes]
  · rw [closing?_escape]
    simp [closing?]

/-- A text with a character of each form: the quotes and the backslash in it do not end it. -/
theorem escape_unambiguous_mixed :
    let s := "a\"\\\n\x01é€😀"
    escape s = "a\\\"\\\\\\n\\x01\\xE9\\u20AC😀" ∧ closing? (escape s).toList = none ∧
      escape s ≠ escape "a\"\\n\x01é€😀" := by
  intro s
  obtain ⟨hinj, -, hclosing, -⟩ := escape_unambiguous s
  refine ⟨by decide +kernel, hclosing, fun h => ?_⟩
  exact absurd ((hinj _).mp h) (by decide +kernel)

end Text

end PegMachine
