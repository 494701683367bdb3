import Mathlib.Data.List.DropRight
import Mathlib.Tactic.SplitIfs
import PegMachine.Json.Decode
import PegMachine.Json.Printer

/-!
# Reading what was written

Reading takes back what writing does, in the compact form and in the pretty form: both write the
same words and marks, with blanks between them that a reader skips. What can be read back are the
documents that a program makes: whole numbers in the range of documents, and brackets that are not
nested too deeply.
-/

namespace PegMachine.Json

variable {c : Char} {text rest : List Char} {room fuel : Nat}

/-! ## Blanks -/

/-- A character that may stand between the parts of a document. -/
def IsBlank (c : Char) : Prop := c = ' ' ∨ c = '\n' ∨ c = '\t' ∨ c = '\r'

theorem skipBlanks_of_not (h : ¬ IsBlank c) : skipBlanks (c :: text) = c :: text := by
  simp only [IsBlank, not_or] at h
  simp [skipBlanks, h]

theorem skipBlanks_append {blanks : List Char} (h : ∀ c ∈ blanks, IsBlank c) (text : List Char) :
    skipBlanks (blanks ++ text) = skipBlanks text := by
  induction blanks with
  | nil => rfl
  | cons c blanks ih =>
    obtain ⟨hc, hblanks⟩ := List.forall_mem_cons.mp h
    rw [← ih hblanks]
    refine List.dropWhile_cons_of_pos ?_
    rcases hc with rfl | rfl | rfl | rfl <;> rfl

/-! ## Strings -/

theorem hexValue?_lowerHexDigit {n : Nat} (h : n < 16) : hexValue? (lowerHexDigit n) = some n := by
  revert n
  decide

/-- A character below the blank is read back from the four digits it is written with. -/
theorem hexUnit?_written (h : c.toNat < 0x20) (rest : List Char) :
    hexUnit? ('0' :: '0' :: lowerHexDigit (c.toNat / 16) :: lowerHexDigit (c.toNat % 16) :: rest) =
      some (c.toNat, rest) := by
  have hzero : hexValue? '0' = some 0 := by decide
  have hhigh : hexValue? (lowerHexDigit (c.toNat / 16)) = some (c.toNat / 16) :=
    hexValue?_lowerHexDigit (by omega)
  have hlow : hexValue? (lowerHexDigit (c.toNat % 16)) = some (c.toNat % 16) :=
    hexValue?_lowerHexDigit (by omega)
  rw [hexUnit?, hzero, hhigh, hlow]
  have hvalue : ((0 * 16 + 0) * 16 + c.toNat / 16) * 16 + c.toNat % 16 = c.toNat := by omega
  exact congrArg (fun n => some (n, rest)) hvalue

/-- A character is read back from the form in which it is written. -/
theorem readChars_stringChar (done : List Char) (fit : Bool) (c : Char) (rest : List Char) :
    readChars (fuel + 1) done fit (stringChar c ++ rest) = readChars fuel (c :: done) fit rest := by
  rw [stringChar]
  split_ifs with hquote hslash hb ht hn hf hr hcontrol
  · subst hquote; rfl
  · subst hslash; rfl
  · subst hb; rfl
  · subst ht; rfl
  · subst hn; rfl
  · subst hf; rfl
  · subst hr; rfl
  · -- A control character is below the surrogates, so its four digits are all of it.
    have hhigh : ¬ (0xD800 ≤ c.toNat ∧ c.toNat ≤ 0xDBFF) := by omega
    have hlow : ¬ (0xDC00 ≤ c.toNat ∧ c.toNat ≤ 0xDFFF) := by omega
    have hslash : '\\' ≠ '"' := by decide
    simp only [readChars.eq_def (fuel + 1), List.cons_append, List.nil_append, hslash, if_false,
      if_true, hexUnit?_written hcontrol, hhigh, hlow, Char.ofNat_toNat]
  · simp only [readChars.eq_def (fuel + 1), List.cons_append, List.nil_append, hquote, hslash,
      hcontrol, if_false]

/-- A string is read back up to its closing quote. -/
theorem readChars_written (chars : List Char) {done : List Char} {fit : Bool}
    (hfuel : (chars.flatMap stringChar).length < fuel) :
    readChars fuel done fit (chars.flatMap stringChar ++ '"' :: rest) =
      some (done.reverse ++ chars, fit, rest) := by
  induction chars generalizing fuel done with
  | nil =>
    obtain ⟨fuel, rfl⟩ := Nat.exists_eq_add_one_of_ne_zero (Nat.ne_of_gt hfuel)
    rw [List.flatMap_nil, List.nil_append, List.append_nil]
    rfl
  | cons c chars ih =>
    have hpos : 0 < (stringChar c).length := by
      rw [stringChar]
      split_ifs <;> exact Nat.succ_pos _
    rw [List.flatMap_cons, List.length_append] at hfuel
    obtain ⟨fuel, rfl⟩ := Nat.exists_eq_add_one_of_ne_zero (Nat.ne_of_gt (Nat.zero_lt_of_lt hfuel))
    rw [List.flatMap_cons, List.append_assoc, readChars_stringChar, ih (by omega),
      List.reverse_cons, List.append_assoc, List.singleton_append]

/-- The characters of a string between its quotes. -/
def quoted (s : String) : List Char := '"' :: (s.toList.flatMap stringChar ++ ['"'])

theorem toList_stringText (s : String) : (stringText s).toList = quoted s := by
  simp [stringText, quoted]

theorem readChars_quoted (s : String) (rest : List Char) :
    let inside := s.toList.flatMap stringChar ++ '"' :: rest
    readChars (inside.length + 1) [] true inside = some (s.toList, true, rest) := by
  intro inside
  refine readChars_written s.toList ?_
  rw [List.length_append]
  omega

/-! ## Numbers -/

/-- A text that does not go on with a number that stands before it. -/
def EndsNumber (rest : List Char) : Prop :=
  ∀ c more, rest = c :: more → isDigit c = false ∧ c ≠ '.' ∧ c ≠ 'e' ∧ c ≠ 'E'

theorem endsNumber_nil : EndsNumber [] := nofun

theorem endsNumber_cons (h : isDigit c = false ∧ c ≠ '.' ∧ c ≠ 'e' ∧ c ≠ 'E') :
    EndsNumber (c :: rest) := by
  rintro _ _ ⟨rfl, rfl⟩
  exact h

theorem isDigit_of_mem_toDigits {n : Nat} (h : c ∈ Nat.toDigits 10 n) : isDigit c = true := by
  have hdigit := Nat.isDigit_of_mem_toDigits (by decide) (by decide) h
  rw [Char.isDigit] at hdigit
  exact hdigit

theorem digitsValue_toDigits (n : Nat) : digitsValue (Nat.toDigits 10 n) = n := by
  have h : Nat.ofDigitChars 10 (Nat.toDigits 10 n) 0 = n := Nat.ofDigitChars_ten_toDigits
  rw [Nat.ofDigitChars_eq_foldl] at h
  exact h

/-- Only the number zero is written with a zero in front. -/
theorem head?_toDigits {n : Nat} (h : n ≠ 0) : (Nat.toDigits 10 n).head? ≠ some '0' := by
  induction n using Nat.strongRecOn with
  | ind n ih =>
    rw [Nat.toDigits_eq_if (by decide)]
    split
    · next hlt =>
      have hdigits : ∀ d < 10, d ≠ 0 → [Nat.digitChar d].head? ≠ some '0' := by decide
      exact hdigits n hlt h
    · next hge =>
      rw [List.head?_append, Option.or_of_isSome (by simp [Nat.toDigits_ne_nil])]
      exact ih _ (Nat.div_lt_self (by omega) (by decide)) (by omega)

theorem toDigits_of_head? {n : Nat} (h : (Nat.toDigits 10 n).head? = some '0') :
    (Nat.toDigits 10 n).length ≤ 1 := by
  by_cases hn : n = 0
  · subst hn
    decide
  · exact absurd h (head?_toDigits hn)

/-- The digits of a number end where the number ends. -/
theorem takeWhile_digits {n : Nat} (h : EndsNumber rest) :
    (Nat.toDigits 10 n ++ rest).takeWhile isDigit = Nat.toDigits 10 n ∧
      (Nat.toDigits 10 n ++ rest).dropWhile isDigit = rest := by
  have hdigits : ∀ c ∈ Nat.toDigits 10 n, isDigit c = true := fun c => isDigit_of_mem_toDigits
  rw [List.takeWhile_append_of_pos hdigits, List.dropWhile_append_of_pos hdigits]
  cases rest with
  | nil => simp
  | cons c rest =>
    have hc := (h c rest rfl).1
    simp [hc]

theorem readExponent?_of_endsNumber (h : EndsNumber rest) :
    readExponent? rest = some (none, rest) := by
  cases rest with
  | nil => rfl
  | cons c rest =>
    obtain ⟨-, -, hlower, hupper⟩ := h c rest rfl
    simp [readExponent?, hlower, hupper]

/-- Digits are read as their number, with the sign that stands before them. -/
theorem readNumber?_digits {negative : Bool} {n : Nat} {j : Json} (h : EndsNumber rest)
    (hj : ∀ text, numberOf negative (Nat.toDigits 10 n) [] none text = j) :
    readNumber? ((if negative then ['-'] else []) ++ (Nat.toDigits 10 n ++ rest)) =
      some (j, rest) := by
  obtain ⟨htake, hdrop⟩ := takeWhile_digits (n := n) h
  have hshort : (1 < (Nat.toDigits 10 n).length ∧ (Nat.toDigits 10 n).head? = some '0') ↔ False :=
    iff_false_intro fun ⟨hlong, hzero⟩ => Nat.not_lt.mpr (toDigits_of_head? hzero) hlong
  have hexponent := readExponent?_of_endsNumber h
  generalize hdigits : Nat.toDigits 10 n = digits at *
  have hne : digits ≠ [] := hdigits ▸ Nat.toDigits_ne_nil
  have hsign : ∀ r, digits ++ rest ≠ '-' :: r := by
    rintro r hr
    obtain ⟨d, ds, rfl⟩ := List.exists_cons_of_ne_nil hne
    obtain rfl := (List.cons.inj hr).1
    have hdigit : isDigit '-' = true :=
      isDigit_of_mem_toDigits (hdigits ▸ List.mem_cons_self)
    cases hdigit
  have hdot : ∀ r, rest ≠ '.' :: r := fun r hr => (h _ _ hr).2.1 rfl
  cases negative <;> simp [readNumber?, htake, hdrop, hne, hshort, hexponent, hj]

/-- The digits of a whole number and the sign before them. -/
theorem toList_int (n : Int) : (Number.int n).text.toList =
    (if decide (n < 0) then ['-'] else []) ++ Nat.toDigits 10 n.natAbs := by
  cases n with
  | ofNat m =>
    have hpos : ¬ Int.ofNat m < 0 := by simp
    rw [decide_eq_false hpos]
    exact Nat.toList_repr
  | negSucc m =>
    rw [decide_eq_true (Int.negSucc_lt_zero m)]
    change ("-" ++ (m + 1).repr).toList = _
    rw [String.toList_append, Nat.toList_repr]
    rfl

/-- Whole numbers in the range of documents are read back. -/
theorem readNumber?_int {n : Int} (h : EndsNumber rest)
    (hn : -0x8000000000000000 ≤ n ∧ n < 0x10000000000000000) :
    readNumber? ((Number.int n).text.toList ++ rest) = some (.num (.int n), rest) := by
  rw [toList_int, List.append_assoc]
  refine readNumber?_digits h fun text => ?_
  have hwhole : (([] : List Char).isEmpty && (none : Option Int).isNone) = true := rfl
  rw [numberOf, if_pos hwhole, digitsValue_toDigits]
  dsimp only
  by_cases hneg : n < 0
  · have habs : -(n.natAbs : Int) = n := by omega
    rw [if_pos (decide_eq_true hneg), if_pos (by omega), habs]
  · have habs : (n.natAbs : Int) = n := by omega
    rw [if_neg (by simpa using hneg), if_pos (by omega), habs]

/-! ## Documents -/

mutual

/-- A document that a reader can make sense of inside brackets that leave `room` for more. -/
def Plain : Nat → Json → Prop
  | _, .null => True
  | _, .bool _ => True
  | _, .num (.int n) => -0x8000000000000000 ≤ n ∧ n < 0x10000000000000000
  | _, .num (.real _) => False
  | _, .str _ => True
  | room, .arr items => 0 < room ∧ AllPlain (room - 1) items
  | room, .obj members => 0 < room ∧ MembersPlain (room - 1) members
  | _, .unfit _ => False
  | _, .cut => False

/-- Documents that a reader can make sense of. -/
def AllPlain : Nat → List Json → Prop
  | _, [] => True
  | room, j :: rest => Plain room j ∧ AllPlain room rest

/-- Members that a reader can make sense of. -/
def MembersPlain : Nat → List (String × Json) → Prop
  | _, [] => True
  | room, (_, j) :: rest => Plain room j ∧ MembersPlain room rest

end

theorem allPlain_iff {items : List Json} :
    AllPlain room items ↔ ∀ j ∈ items, Plain room j := by
  induction items with
  | nil => simp [AllPlain]
  | cons j items ih => simp [AllPlain, ih]

theorem membersPlain_iff {members : List (String × Json)} :
    MembersPlain room members ↔ ∀ m ∈ members, Plain room m.2 := by
  induction members with
  | nil => simp [MembersPlain]
  | cons m members ih => simp [MembersPlain, ih]

mutual

/-- Nothing of a plain document is unfit, and it goes on to its end. -/
theorem Plain.usable {room : Nat} : {j : Json} → Plain room j → j.isUsable = true ∧ j.isWhole = true
  | .null, _ => ⟨rfl, rfl⟩
  | .bool _, _ => ⟨rfl, rfl⟩
  | .num _, _ => ⟨rfl, rfl⟩
  | .str _, _ => ⟨rfl, rfl⟩
  | .arr _, h => AllPlain.usable h.2
  | .obj _, h => MembersPlain.usable h.2

theorem AllPlain.usable {room : Nat} : {items : List Json} → AllPlain room items →
    allUsable items = true ∧ allWhole items = true
  | [], _ => ⟨rfl, rfl⟩
  | _ :: _, h => by simp [allUsable, allWhole, Plain.usable h.1, AllPlain.usable h.2]

theorem MembersPlain.usable {room : Nat} : {members : List (String × Json)} →
    MembersPlain room members → membersUsable members = true ∧ membersWhole members = true
  | [], _ => ⟨rfl, rfl⟩
  | _ :: _, h => by simp [membersUsable, membersWhole, Plain.usable h.1, MembersPlain.usable h.2]

end

/-- The blanks that a form of documents has before each part of a list or an object, by the number
of brackets around it, and behind each colon. -/
structure Spacing where
  gap : Nat → List Char
  colon : List Char
  gap_blank : ∀ depth, ∀ c ∈ gap depth, IsBlank c
  colon_blank : ∀ c ∈ colon, IsBlank c

variable (sp : Spacing)

mutual

/-- The form of a document inside `depth` brackets. -/
def written : Nat → Json → List Char
  | _, .null => ['n', 'u', 'l', 'l']
  | _, .bool b => if b then ['t', 'r', 'u', 'e'] else ['f', 'a', 'l', 's', 'e']
  | _, .num n => n.text.toList
  | _, .str s => quoted s
  | _, .arr [] => ['[', ']']
  | depth, .arr (j :: items) =>
    '[' :: (writtenItems (depth + 1) (j :: items) ++ (sp.gap depth ++ [']']))
  | _, .obj [] => ['\x7b', '\x7d']
  | depth, .obj (m :: members) =>
    '\x7b' :: (writtenMembers (depth + 1) (m :: members) ++ (sp.gap depth ++ ['\x7d']))
  | depth, .unfit inner => written depth inner
  | _, .cut => []

/-- The forms of the items of a list, with commas between them. -/
def writtenItems : Nat → List Json → List Char
  | _, [] => []
  | depth, [j] => sp.gap depth ++ written depth j
  | depth, j :: rest => sp.gap depth ++ (written depth j ++ ',' :: writtenItems depth rest)

/-- The forms of the members of an object, with commas between them. -/
def writtenMembers : Nat → List (String × Json) → List Char
  | _, [] => []
  | depth, [(name, j)] => sp.gap depth ++ (quoted name ++ ':' :: (sp.colon ++ written depth j))
  | depth, (name, j) :: rest =>
    sp.gap depth ++ (quoted name ++ ':' :: (sp.colon ++ (written depth j ++
      ',' :: writtenMembers depth rest)))

end

/-- No blanks at all. -/
def Spacing.compact : Spacing where
  gap _ := []
  colon := []
  gap_blank _ := nofun
  colon_blank := nofun

/-- A line for each part, and a blank behind each colon. -/
def Spacing.pretty : Spacing where
  gap depth := '\n' :: List.replicate (2 * depth) ' '
  colon := [' ']
  gap_blank depth := by
    rintro c (_ | ⟨_, hc⟩)
    · exact .inr (.inl rfl)
    · exact .inl (List.eq_of_mem_replicate hc)
  colon_blank c hc := .inl (List.mem_singleton.mp hc)

mutual

theorem toList_compact (depth : Nat) : (j : Json) → j.compact.toList = written .compact depth j
  | .null => rfl
  | .bool true => rfl
  | .bool false => rfl
  | .num n => rfl
  | .str s => toList_stringText s
  | .arr [] => rfl
  | .arr (j :: items) => by
    rw [compact, written, String.toList_append, String.toList_append,
      toList_compactItems (depth + 1)]
    rfl
  | .obj [] => rfl
  | .obj (m :: members) => by
    rw [compact, written, String.toList_append, String.toList_append,
      toList_compactMembers (depth + 1)]
    rfl
  | .unfit inner => toList_compact depth inner
  | .cut => rfl

theorem toList_compactItems (depth : Nat) : (items : List Json) →
    (compactItems items).toList = writtenItems .compact depth items
  | [] => rfl
  | [j] => toList_compact depth j
  | j :: k :: rest => by
    rw [compactItems, writtenItems, String.toList_append, String.toList_append,
      toList_compact depth, toList_compactItems depth]
    · simp [Spacing.compact]
    · nofun
    · nofun

theorem toList_compactMembers (depth : Nat) : (members : List (String × Json)) →
    (compactMembers members).toList = writtenMembers .compact depth members
  | [] => rfl
  | [(name, j)] => by
    simp [compactMembers, writtenMembers, toList_compact depth, toList_stringText, Spacing.compact]
  | (name, j) :: m :: rest => by
    simp [compactMembers, writtenMembers, toList_compact depth, toList_stringText, Spacing.compact,
      toList_compactMembers depth]

end

theorem toList_lineBreak (depth : Nat) : (lineBreak depth).toList = Spacing.pretty.gap depth := by
  simp [lineBreak, Spacing.pretty]

mutual

theorem toList_prettyAt (depth : Nat) : (j : Json) →
    (prettyAt depth j).toList = written .pretty depth j
  | .null => by simp [prettyAt, written]
  | .bool b => by cases b <;> simp [prettyAt, written]
  | .num n => by rw [prettyAt, written]
  | .str s => by rw [prettyAt, written, toList_stringText]
  | .arr [] => by simp [prettyAt, written]
  | .arr (j :: items) => by
    simp [prettyAt, written, toList_prettyItems (depth + 1), toList_lineBreak]
  | .obj [] => by simp [prettyAt, written]
  | .obj (m :: members) => by
    simp [prettyAt, written, toList_prettyMembers (depth + 1), toList_lineBreak]
  | .unfit inner => toList_prettyAt depth inner
  | .cut => rfl

theorem toList_prettyItems (depth : Nat) : (items : List Json) →
    (prettyItems depth items).toList = writtenItems .pretty depth items
  | [] => rfl
  | [j] => by simp [prettyItems, writtenItems, toList_prettyAt depth, toList_lineBreak]
  | j :: k :: rest => by
    simp [prettyItems, writtenItems, toList_prettyAt depth, toList_lineBreak,
      toList_prettyItems depth]

theorem toList_prettyMembers (depth : Nat) : (members : List (String × Json)) →
    (prettyMembers depth members).toList = writtenMembers .pretty depth members
  | [] => rfl
  | [(name, j)] => by
    simp [prettyMembers, writtenMembers, toList_prettyAt depth, toList_lineBreak,
      toList_stringText, Spacing.pretty]
  | (name, j) :: m :: rest => by
    simp [prettyMembers, writtenMembers, toList_prettyAt depth, toList_lineBreak,
      toList_stringText, toList_prettyMembers depth, Spacing.pretty]

end

/-! ## Reading documents -/

theorem skipBlanks_idem (text : List Char) : skipBlanks (skipBlanks text) = skipBlanks text :=
  List.dropWhile_idempotent _ text

/-- Blanks in front of a document are skipped. -/
theorem readValue_skipBlanks (text : List Char) :
    readValue fuel room (skipBlanks text) = readValue fuel room text := by
  cases fuel with
  | zero => rfl
  | succ fuel => rw [readValue, readValue, skipBlanks_idem]

theorem readValue_blanks {blanks : List Char} (h : ∀ c ∈ blanks, IsBlank c) (text : List Char) :
    readValue fuel room (blanks ++ text) = readValue fuel room text := by
  rw [← readValue_skipBlanks, skipBlanks_append h, readValue_skipBlanks]

theorem readItems_skipBlanks (text : List Char) :
    readItems fuel room (skipBlanks text) = readItems fuel room text := by
  cases fuel with
  | zero => rfl
  | succ fuel => rw [readItems, readItems, readValue_skipBlanks]

theorem readMembers_skipBlanks (text : List Char) :
    readMembers fuel room (skipBlanks text) = readMembers fuel room text := by
  cases fuel with
  | zero => rfl
  | succ fuel => rw [readMembers, readMembers, skipBlanks_idem]

/-- The characters with which a document begins. -/
def Begins (c : Char) : Prop := c ∈ ['n', 't', 'f', '"', '[', '\x7b', '-'] ∨ isDigit c = true

theorem Begins.not_isBlank (h : Begins c) : ¬ IsBlank c := by
  rintro (rfl | rfl | rfl | rfl) <;> revert h <;> simp [Begins, isDigit]

theorem Begins.ne_bracket (h : Begins c) : c ≠ ']' := by
  rintro rfl
  revert h
  simp [Begins, isDigit]

theorem exists_begins_int (n : Int) : ∃ c more, (Number.int n).text.toList = c :: more ∧
    (c = '-' ∨ isDigit c = true) := by
  rw [toList_int]
  cases decide (n < 0) with
  | true => exact ⟨_, _, rfl, .inl rfl⟩
  | false =>
    obtain ⟨d, ds, hdigits⟩ := List.exists_cons_of_ne_nil (Nat.toDigits_ne_nil (n := n.natAbs))
    refine ⟨d, ds, hdigits, .inr (isDigit_of_mem_toDigits (n := n.natAbs) ?_)⟩
    rw [hdigits]
    exact List.mem_cons_self

/-- A plain document begins with no blank and no closing bracket. -/
theorem Plain.begins {j : Json} (h : j.Plain room) (depth : Nat) :
    ∃ c more, written sp depth j = c :: more ∧ Begins c := by
  cases j with
  | null => exact ⟨_, _, rfl, .inl (by decide)⟩
  | bool b => cases b <;> exact ⟨_, _, rfl, .inl (by decide)⟩
  | num n =>
    cases n with
    | real => cases h
    | int n =>
      obtain ⟨c, more, htext, hc⟩ := exists_begins_int n
      exact ⟨c, more, htext, hc.imp_left fun hc => by simp [hc]⟩
  | str s => exact ⟨_, _, rfl, .inl (by decide)⟩
  | arr items => cases items <;> exact ⟨_, _, rfl, .inl (by decide)⟩
  | obj members => cases members <;> exact ⟨_, _, rfl, .inl (by decide)⟩
  | unfit => cases h
  | cut => cases h

theorem Plain.length_pos {j : Json} (h : j.Plain room) (depth : Nat) :
    0 < (written sp depth j).length := by
  obtain ⟨c, more, hwritten, -⟩ := h.begins sp depth
  rw [hwritten]
  exact Nat.succ_pos _

/-- The items of a list begin with no closing bracket. -/
theorem skipBlanks_writtenItems {j : Json} {items : List Json} (h : j.Plain room) (depth : Nat)
    (text more : List Char) :
    skipBlanks (writtenItems sp depth (j :: items) ++ text) ≠ ']' :: more := by
  obtain ⟨c, tail, hwritten, hc⟩ := h.begins sp depth
  have hbegins : ∃ after, writtenItems sp depth (j :: items) ++ text =
      sp.gap depth ++ c :: after := by
    cases items <;> simp [writtenItems, hwritten]
  obtain ⟨after, hbegins⟩ := hbegins
  rw [hbegins, skipBlanks_append (sp.gap_blank depth), skipBlanks_of_not hc.not_isBlank]
  exact fun h => hc.ne_bracket (List.cons.inj h).1

/-- The members of an object begin with a name. -/
theorem skipBlanks_writtenMembers (m : String × Json) (members : List (String × Json))
    (depth : Nat) (text more : List Char) :
    skipBlanks (writtenMembers sp depth (m :: members) ++ text) ≠ '\x7d' :: more := by
  have hbegins : ∃ after, writtenMembers sp depth (m :: members) ++ text =
      sp.gap depth ++ '"' :: after := by
    cases members <;> simp [writtenMembers, quoted]
  obtain ⟨after, hbegins⟩ := hbegins
  have hquote : ¬ IsBlank '"' := by simp [IsBlank]
  rw [hbegins, skipBlanks_append (sp.gap_blank depth), skipBlanks_of_not hquote]
  nofun

/-- A string is read up to its closing quote. -/
theorem readValue_quote {inside chars : List Char}
    (h : readChars (inside.length + 1) [] true inside = some (chars, true, rest)) :
    readValue (fuel + 1) room ('"' :: inside) = (.str (String.ofList chars), some rest) := by
  have hskip : skipBlanks ('"' :: inside) = '"' :: inside := rfl
  simp only [readValue, hskip, h]

/-- What begins with a sign or a digit is read as a number. -/
theorem readValue_number {j : Json} (hc : c = '-' ∨ isDigit c = true)
    (h : readNumber? (c :: text) = some (j, rest)) :
    readValue (fuel + 1) room (c :: text) = (j, some rest) := by
  have hblank : ¬ IsBlank c := Begins.not_isBlank (hc.imp_left fun hc => by simp [hc])
  have hstart : (c = '-' || isDigit c) = true := by simpa using hc
  have hother : c ∉ ['n', 't', 'f', '"', '[', '\x7b'] := by
    intro hmem
    simp only [List.mem_cons, List.not_mem_nil, or_false] at hmem
    rcases hmem with rfl | rfl | rfl | rfl | rfl | rfl <;> revert hc <;> decide
  rw [readValue, skipBlanks_of_not hblank]
  split
  case h_1 hc' => cases hc'
  case h_8 hc' =>
    obtain ⟨rfl, rfl⟩ := List.cons.inj hc'
    rw [if_pos hstart, h]
  all_goals
    next hc' =>
      cases hc'
      exact absurd (by decide) hother

/-- A list with items is read item by item. -/
theorem readValue_bracket {items : List Json} (hroom : 0 < room)
    (hc : ∀ more, skipBlanks text ≠ ']' :: more)
    (h : readItems fuel (room - 1) text = (items, some rest)) :
    readValue (fuel + 1) room ('[' :: text) = (.arr items, some rest) := by
  have hskip : skipBlanks ('[' :: text) = '[' :: text := rfl
  rw [← readItems_skipBlanks] at h
  simp only [readValue, hskip]
  rw [h, atDepth, if_neg (Nat.ne_of_gt hroom)]

/-- An object with members is read member by member. -/
theorem readValue_brace {members : List (String × Json)} (hroom : 0 < room)
    (hc : ∀ more, skipBlanks text ≠ '\x7d' :: more)
    (h : readMembers fuel (room - 1) text = (members, some rest)) :
    readValue (fuel + 1) room ('\x7b' :: text) = (.obj members, some rest) := by
  have hskip : skipBlanks ('\x7b' :: text) = '\x7b' :: text := rfl
  rw [← readMembers_skipBlanks] at h
  simp only [readValue, hskip]
  rw [h, atDepth, if_neg (Nat.ne_of_gt hroom)]

/-- The last item of a list stands before its bracket. -/
theorem readItems_last {j : Json} {after : List Char}
    (h : readValue fuel room text = (j, some after)) (hafter : skipBlanks after = ']' :: rest) :
    readItems (fuel + 1) room text = ([j], some rest) := by
  simp only [readItems, h, hafter]

/-- An item of a list that is not the last one stands before a comma. -/
theorem readItems_comma {j : Json} {items : List Json} {after more : List Char}
    (h : readValue fuel room text = (j, some after)) (hafter : skipBlanks after = ',' :: more)
    (hmore : readItems fuel room more = (items, some rest)) :
    readItems (fuel + 1) room text = (j :: items, some rest) := by
  simp only [readItems, h, hafter, hmore]

/-- The name of a member is read up to its colon. -/
theorem readMembers_last {name : String} {j : Json} {value after : List Char}
    (htext : skipBlanks text = quoted name ++ ':' :: value)
    (h : readValue fuel room value = (j, some after)) (hafter : skipBlanks after = '\x7d' :: rest) :
    readMembers (fuel + 1) room text = ([(name, j)], some rest) := by
  have hname := readChars_quoted name (':' :: value)
  rw [quoted, List.cons_append, List.append_assoc, List.singleton_append] at htext
  have hcolon : skipBlanks (':' :: value) = ':' :: value := rfl
  simp only [readMembers, htext, hname, hcolon, h, hafter, String.ofList_toList]

theorem readMembers_comma {name : String} {j : Json} {members : List (String × Json)}
    {value after more : List Char} (htext : skipBlanks text = quoted name ++ ':' :: value)
    (h : readValue fuel room value = (j, some after)) (hafter : skipBlanks after = ',' :: more)
    (hmore : readMembers fuel room more = (members, some rest)) :
    readMembers (fuel + 1) room text = ((name, j) :: members, some rest) := by
  have hname := readChars_quoted name (':' :: value)
  rw [quoted, List.cons_append, List.append_assoc, List.singleton_append] at htext
  have hcolon : skipBlanks (':' :: value) = ':' :: value := rfl
  simp only [readMembers, htext, hname, hcolon, h, hafter, hmore, String.ofList_toList]

/-! What stands behind a value is a comma or a bracket, perhaps after blanks. -/

theorem endsNumber_blanks {blanks : List Char} (h : ∀ c ∈ blanks, IsBlank c)
    (hrest : EndsNumber rest) : EndsNumber (blanks ++ rest) := by
  cases blanks with
  | nil => exact hrest
  | cons c blanks =>
    refine endsNumber_cons ?_
    rcases h c List.mem_cons_self with rfl | rfl | rfl | rfl <;> decide

/-- A number is read back from its digits. -/
theorem readValue_int {n : Int} (hn : -0x8000000000000000 ≤ n ∧ n < 0x10000000000000000)
    (hrest : EndsNumber rest) :
    readValue (fuel + 1) room ((Number.int n).text.toList ++ rest) =
      (.num (.int n), some rest) := by
  have hread := readNumber?_int hrest hn
  obtain ⟨c, more, htext, hc⟩ := exists_begins_int n
  rw [htext, List.cons_append] at hread ⊢
  exact readValue_number hc hread

mutual

/-- A plain document is read back from each of its forms. -/
theorem readValue_written {room depth fuel : Nat} {rest : List Char} : {j : Json} →
    j.Plain room → (written sp depth j).length ≤ fuel + 1 → EndsNumber rest →
    readValue (fuel + 1) room (written sp depth j ++ rest) = (j, some rest)
  | .null, _, _, _ => rfl
  | .bool true, _, _, _ => rfl
  | .bool false, _, _, _ => rfl
  | .num (.int n), h, _, hrest => readValue_int h hrest
  | .str s, _, _, _ => by
    rw [written, quoted, List.cons_append, List.append_assoc, List.singleton_append,
      readValue_quote (readChars_quoted s rest), String.ofList_toList]
  | .arr [], h, _, _ => by
    change (atDepth room (.arr []), some rest) = _
    rw [atDepth, if_neg (Nat.ne_of_gt h.1)]
  | .arr (j :: items), h, hfuel, _ => by
    simp only [written, List.length_cons, List.length_append] at hfuel
    rw [written, List.cons_append, List.append_assoc, List.append_assoc, List.singleton_append]
    exact readValue_bracket h.1 (skipBlanks_writtenItems sp h.2.1 (depth + 1) _)
      (readItems_written h.2 (List.cons_ne_nil _ _) (by omega) (sp.gap_blank depth))
  | .obj [], h, _, _ => by
    change (atDepth room (.obj []), some rest) = _
    rw [atDepth, if_neg (Nat.ne_of_gt h.1)]
  | .obj (m :: members), h, hfuel, _ => by
    simp only [written, List.length_cons, List.length_append] at hfuel
    rw [written, List.cons_append, List.append_assoc, List.append_assoc, List.singleton_append]
    exact readValue_brace h.1 (skipBlanks_writtenMembers sp m members (depth + 1) _)
      (readMembers_written h.2 (List.cons_ne_nil _ _) (by omega) (sp.gap_blank depth))

/-- The items of a list are read up to its bracket. -/
theorem readItems_written {room depth fuel : Nat} {blanks rest : List Char} :
    {items : List Json} → AllPlain room items → items ≠ [] →
    (writtenItems sp depth items).length < fuel → (∀ c ∈ blanks, IsBlank c) →
    readItems fuel room (writtenItems sp depth items ++ (blanks ++ ']' :: rest)) =
      (items, some rest)
  | [j], h, _, hfuel, hblanks => by
    have hpos := h.1.length_pos sp depth
    simp only [writtenItems, List.length_append] at hfuel
    obtain ⟨fuel, rfl⟩ : ∃ k, fuel = k + 2 := ⟨fuel - 2, by omega⟩
    have hends : EndsNumber (blanks ++ ']' :: rest) :=
      endsNumber_blanks hblanks (endsNumber_cons (by decide))
    have hitem : readValue (fuel + 1) room
        (writtenItems sp depth [j] ++ (blanks ++ ']' :: rest)) =
          (j, some (blanks ++ ']' :: rest)) := by
      rw [writtenItems, List.append_assoc, readValue_blanks (sp.gap_blank depth)]
      exact readValue_written h.1 (by omega) hends
    exact readItems_last hitem (skipBlanks_append hblanks _)
  | j :: k :: items, h, _, hfuel, hblanks => by
    simp only [writtenItems, List.length_append, List.length_cons] at hfuel
    obtain ⟨fuel, rfl⟩ : ∃ k, fuel = k + 2 := ⟨fuel - 2, by omega⟩
    have hmore : readItems (fuel + 1) room
        (writtenItems sp depth (k :: items) ++ (blanks ++ ']' :: rest)) =
          (k :: items, some rest) :=
      readItems_written h.2 (List.cons_ne_nil _ _) (by omega) hblanks
    have hitem : readValue (fuel + 1) room (sp.gap depth ++ (written sp depth j ++
        ',' :: (writtenItems sp depth (k :: items) ++ (blanks ++ ']' :: rest)))) =
          (j, some (',' :: (writtenItems sp depth (k :: items) ++ (blanks ++ ']' :: rest)))) := by
      rw [readValue_blanks (sp.gap_blank depth)]
      exact readValue_written h.1 (by omega) (endsNumber_cons (by decide))
    simp only [writtenItems, List.append_assoc, List.cons_append]
    exact readItems_comma hitem rfl hmore

/-- The members of an object are read up to its bracket. -/
theorem readMembers_written {room depth fuel : Nat} {blanks rest : List Char} :
    {members : List (String × Json)} → MembersPlain room members → members ≠ [] →
    (writtenMembers sp depth members).length < fuel → (∀ c ∈ blanks, IsBlank c) →
    readMembers fuel room (writtenMembers sp depth members ++ (blanks ++ '\x7d' :: rest)) =
      (members, some rest)
  | [(name, j)], h, _, hfuel, hblanks => by
    simp only [writtenMembers, List.length_append, List.length_cons] at hfuel
    obtain ⟨fuel, rfl⟩ : ∃ k, fuel = k + 2 := ⟨fuel - 2, by omega⟩
    have hends : EndsNumber (blanks ++ '\x7d' :: rest) :=
      endsNumber_blanks hblanks (endsNumber_cons (by decide))
    have hvalue : readValue (fuel + 1) room
        (sp.colon ++ (written sp depth j ++ (blanks ++ '\x7d' :: rest))) =
          (j, some (blanks ++ '\x7d' :: rest)) := by
      rw [readValue_blanks sp.colon_blank]
      exact readValue_written h.1 (by omega) hends
    refine readMembers_last ?_ hvalue (skipBlanks_append hblanks _)
    simp only [writtenMembers, List.append_assoc, List.cons_append]
    exact skipBlanks_append (sp.gap_blank depth) _
  | (name, j) :: m :: members, h, _, hfuel, hblanks => by
    simp only [writtenMembers, List.length_append, List.length_cons] at hfuel
    obtain ⟨fuel, rfl⟩ : ∃ k, fuel = k + 2 := ⟨fuel - 2, by omega⟩
    have hmore : readMembers (fuel + 1) room
        (writtenMembers sp depth (m :: members) ++ (blanks ++ '\x7d' :: rest)) =
          (m :: members, some rest) :=
      readMembers_written h.2 (List.cons_ne_nil _ _) (by omega) hblanks
    have hvalue : readValue (fuel + 1) room (sp.colon ++ (written sp depth j ++
        ',' :: (writtenMembers sp depth (m :: members) ++ (blanks ++ '\x7d' :: rest)))) =
          (j, some (',' :: (writtenMembers sp depth (m :: members) ++
            (blanks ++ '\x7d' :: rest)))) := by
      rw [readValue_blanks sp.colon_blank]
      exact readValue_written h.1 (by omega) (endsNumber_cons (by decide))
    refine readMembers_comma ?_ hvalue rfl hmore
    simp only [writtenMembers, List.append_assoc, List.cons_append]
    exact skipBlanks_append (sp.gap_blank depth) _

end

/-- A text that is a form of a plain document is read as that document, to its end. -/
theorem read_of_written {j : Json} {text : String} (h : j.Plain depthLimit)
    (htext : text.toList = written sp 0 j) : read text = ⟨j, true⟩ := by
  have hlength : (written sp 0 j).length ≤ 2 * text.length + 1 + 1 := by
    rw [← htext, String.length_toList]
    omega
  have hvalue := readValue_written sp h hlength endsNumber_nil
  rw [List.append_nil, ← htext] at hvalue
  rw [read, hvalue]
  rfl

theorem read_compact {j : Json} (h : j.Plain depthLimit) : read j.compact = ⟨j, true⟩ :=
  read_of_written .compact h (toList_compact 0 j)

theorem read_pretty {j : Json} (h : j.Plain depthLimit) : read j.pretty = ⟨j, true⟩ :=
  read_of_written .pretty h (toList_prettyAt 0 j)

end PegMachine.Json
