import PegMachine.Proofs.Tails

/-!
# Patterns in parentheses

A pattern is put into a group by writing parentheses around it. If the group that is read then is
closed by the parenthesis behind the pattern, and not by one that the pattern has itself, the
pattern is read in the same way without it: nothing of the parenthesis went into what was read.
-/

namespace PegMachine

namespace Regex

variable {cs rest left : List Char} {b : Bool}

/-- What is left of a text with a parenthesis behind it ends in the parenthesis, if anything is. -/
theorem exists_cut (h : rest ++ [')'] <:+ left) (hleft : left <:+ cs ++ [')']) :
    ∃ rest', left = rest' ++ [')'] := by
  rcases List.suffix_concat_iff.mp hleft with rfl | ⟨rest', rfl, -⟩
  · exact absurd (List.suffix_nil.mp h) (by simp)
  · exact ⟨rest', rfl⟩

/-- The parenthesis goes from both texts that are left. -/
theorem some_of_cut {α : Type} {a a' : α}
    (h : some (a, left ++ [')']) = some (a', rest ++ [')'])) : some (a, left) = some (a', rest) := by
  obtain ⟨rfl, heq⟩ := Prod.mk.inj (Option.some.inj h)
  rw [List.append_cancel_right heq]

theorem skip_close (b : Bool) (cs : List Char) :
    skip b (cs ++ [')']) = skip b cs ++ [')'] ∨ skip b (cs ++ [')']) = [] :=
  ((Trails.append cs [')']).skip .close).imp_right And.right

/-- After blanks there is nothing left if a comment reaches over the parenthesis. Otherwise there is
the parenthesis itself, or a character that is there without the parenthesis as well. -/
theorem skip_close_cases (b : Bool) (cs : List Char) :
    skip b (cs ++ [')']) = [] ∨ (skip b cs = [] ∧ skip b (cs ++ [')']) = [')']) ∨
      ∃ c ds, skip b cs = c :: ds ∧ skip b (cs ++ [')']) = c :: (ds ++ [')']) := by
  rcases skip_close b cs with heq | hnil
  · cases hskip : skip b cs with
    | nil => exact .inr (.inl ⟨rfl, by rw [heq, hskip, List.nil_append]⟩)
    | cons c ds => exact .inr (.inr ⟨c, ds, rfl, by rw [heq, hskip, List.cons_append]⟩)
  · exact .inl hnil

/-- No comment reaches over the parenthesis if it is still left. -/
theorem skip_cut (h : rest ++ [')'] <:+ skip b (cs ++ [')'])) :
    skip b (cs ++ [')']) = skip b cs ++ [')'] := by
  rcases skip_close b cs with heq | hnil
  · exact heq
  · rw [hnil] at h
    exact absurd (List.suffix_nil.mp h) (by simp)

theorem length_lt_of_skip {fuel : Nat} {c : Char} {ds : List Char} (hskip : skip b cs = c :: ds)
    (h : cs.length < fuel + 1) : ds.length < fuel := by
  have hle := (skip_suffix b cs).length_le
  rw [hskip, List.length_cons] at hle
  omega

theorem length_skip_lt {fuel : Nat} {c : Char} (h : (c :: cs).length < fuel + 1) :
    (skip b cs).length < fuel :=
  Nat.lt_of_le_of_lt (skip_suffix b cs).length_le (Nat.lt_of_succ_lt_succ h)

/-! ## Numbers and names -/

theorem readHexDigits_cut {n value m : Nat}
    (h : readHexDigits b n value (cs ++ [')']) = some (m, rest ++ [')'])) :
    readHexDigits b n value cs = some (m, rest) := by
  induction n generalizing value cs with
  | zero => exact some_of_cut h
  | succ n ih =>
    cases cs with
    | nil => cases h
    | cons c cs =>
      rw [List.cons_append, readHexDigits_cons] at h
      obtain ⟨d, hd, h⟩ := Option.bind_eq_some_iff.mp h
      split at h
      · cases h
      · rw [skip_cut (readHexDigits_suffix h)] at h
        have hcut := ih h
        rw [readHexDigits_cons, hd, Option.bind_some, if_neg, hcut]
        intro hempty
        obtain ⟨hnil, hn⟩ := Bool.and_eq_true_iff.mp hempty
        obtain ⟨n, rfl⟩ := Nat.exists_eq_succ_of_ne_zero (of_decide_eq_true hn)
        rw [List.isEmpty_iff.mp hnil] at hcut
        cases hcut

theorem readHexBraced_cut {fuel fuel' : Nat} (hlt : cs.length < fuel) {value : Option Nat} {m : Nat}
    (h : readHexBraced b fuel' value (cs ++ [')']) = some (m, rest ++ [')'])) :
    readHexBraced b fuel value cs = some (m, rest) := by
  induction fuel' generalizing fuel value cs with
  | zero => cases h
  | succ fuel' ih =>
    obtain ⟨fuel, rfl⟩ := Nat.exists_eq_add_one_of_ne_zero (Nat.ne_zero_of_lt hlt)
    cases cs with
    | nil => cases h
    | cons c cs =>
      rw [List.cons_append, readHexBraced] at h
      rw [readHexBraced]
      split at h
      · next hclose =>
        obtain ⟨n, rfl, hn⟩ := Option.map_eq_some_iff.mp h
        obtain ⟨rfl, heq⟩ := Prod.mk.inj hn
        rw [if_pos hclose, List.append_cancel_right heq, Option.map_some]
      · next hopen =>
        obtain ⟨d, hd, h⟩ := Option.bind_eq_some_iff.mp h
        rw [skip_cut (readHexBraced_suffix h)] at h
        rw [if_neg hopen, hd]
        exact ih (length_skip_lt hlt) h

theorem readBraced_cut {fuel fuel' : Nat} (hlt : cs.length < fuel) {done text : List Char}
    (h : readBraced b fuel' done (cs ++ [')']) = some (text, rest ++ [')'])) :
    readBraced b fuel done cs = some (text, rest) := by
  induction fuel' generalizing fuel done cs with
  | zero => cases h
  | succ fuel' ih =>
    obtain ⟨fuel, rfl⟩ := Nat.exists_eq_add_one_of_ne_zero (Nat.ne_zero_of_lt hlt)
    cases cs with
    | nil =>
      rw [List.nil_append, readBraced, if_neg (by decide), skip_nil] at h
      exact absurd (List.suffix_nil.mp (readBraced_suffix h)) (by simp)
    | cons c cs =>
      rw [List.cons_append, readBraced] at h
      rw [readBraced]
      split at h
      · next hclose =>
        rw [if_pos hclose]
        exact some_of_cut h
      · next hopen =>
        rw [skip_cut (readBraced_suffix h)] at h
        rw [if_neg hopen]
        exact ih (length_skip_lt hlt) h

theorem readBoundaryName_cut {fuel fuel' : Nat} (hlt : cs.length < fuel) {done text : List Char}
    (h : readBoundaryName b fuel' done (cs ++ [')']) = some (text, rest ++ [')'])) :
    readBoundaryName b fuel done cs = some (text, rest) := by
  induction fuel' generalizing fuel done cs with
  | zero => cases h
  | succ fuel' ih =>
    obtain ⟨fuel, rfl⟩ := Nat.exists_eq_add_one_of_ne_zero (Nat.ne_zero_of_lt hlt)
    cases cs with
    | nil => cases h
    | cons c cs =>
      rw [List.cons_append, readBoundaryName] at h
      rw [readBoundaryName]
      split at h
      · next hclose =>
        rw [if_pos hclose]
        exact some_of_cut h
      · next hopen =>
        split at h
        · next hchar =>
          rw [skip_cut (readBoundaryName_suffix h)] at h
          rw [if_neg hopen, if_pos hchar]
          exact ih (length_skip_lt hlt) h
        · cases h

/-! ## Escapes -/

theorem readHex_cut {digits : Nat} (hdigits : 0 < digits) {p : Primitive}
    (h : readHex b digits (cs ++ [')']) = some (p, rest ++ [')'])) :
    readHex b digits cs = some (p, rest) := by
  rw [readHex_eq] at h ⊢
  obtain ⟨⟨n, left⟩, hn, h⟩ := Option.bind_eq_some_iff.mp h
  obtain ⟨c, hc, h⟩ := Option.map_eq_some_iff.mp h
  obtain ⟨rfl, rfl⟩ := Prod.mk.inj h
  suffices hnumber : hexNumber? b digits (skip b cs) = some (n, rest) by
    rw [hnumber, Option.bind_some, hc, Option.map_some]
  rcases skip_close_cases b cs with hnil | ⟨-, heq⟩ | ⟨d, ds, hskip, heq⟩
  · rw [hnil] at hn
    cases hn
  · -- The parenthesis is no digit.
    obtain ⟨digits, rfl⟩ := Nat.exists_eq_add_one_of_ne_zero (Nat.ne_zero_of_lt hdigits)
    rw [heq] at hn
    cases hn
  · rw [heq, hexNumber?] at hn
    rw [hskip, hexNumber?]
    split at hn
    · next hd =>
      rw [skip_cut (readHexBraced_suffix hn)] at hn
      rw [if_pos hd]
      exact readHexBraced_cut (Nat.lt_succ_of_le (skip_suffix b ds).length_le) hn
    · next hd =>
      rw [if_neg hd]
      exact readHexDigits_cut hn

theorem readProperty_cut {negated : Bool} {p : Primitive}
    (h : readProperty b negated (cs ++ [')']) = some (p, rest ++ [')'])) :
    readProperty b negated cs = some (p, rest) := by
  rcases skip_close_cases b cs with hnil | ⟨-, heq⟩ | ⟨c, ds, hskip, heq⟩
  · rw [readProperty_nil hnil] at h
    cases h
  · rw [readProperty_letter heq (by decide) (by decide)] at h
    simp at h
  · by_cases hbrace : c = '\x7b'
    · subst hbrace
      rw [readProperty_braced heq] at h
      obtain ⟨⟨text, left⟩, htext, h⟩ := Option.map_eq_some_iff.mp h
      cases h
      rw [skip_cut (readBraced_suffix htext)] at htext
      rw [readProperty_braced hskip,
        readBraced_cut (Nat.lt_succ_of_le (skip_suffix b ds).length_le) htext, Option.map_some]
    · by_cases hslash : c = '\\'
      · subst hslash
        rw [readProperty_slash heq] at h
        cases h
      · rw [readProperty_letter heq hbrace hslash] at h
        rw [readProperty_letter hskip hbrace hslash]
        exact some_of_cut h

theorem skip_brace : skip b ('\x7b' :: cs) = '\x7b' :: cs := by
  have hbrace : Unicode.isWhiteSpace '\x7b' = false := by decide +kernel
  cases b <;> simp [skip, skipBlanks, hbrace]

/-- A boundary of words with an opening brace behind it, which is neither the start of a name nor of
the bounds of a repetition. -/
def Strays (b : Bool) (p : Primitive) (rest : List Char) : Prop :=
  p = .anchor .wordBoundary ∧ ∃ inside, rest = '\x7b' :: inside ∧ skip b inside = []

theorem namedBoundary?_cut {p : Primitive}
    (h : namedBoundary? b (cs ++ [')']) = some (p, rest ++ [')'])) :
    namedBoundary? b cs = some (p, rest) := by
  obtain ⟨name, a, hname, hnamed⟩ := namedBoundary?_eq_some.mp h
  have hname' := readBoundaryName_cut (Nat.lt_succ_self cs.length) hname
  exact namedBoundary?_eq_some.mpr ⟨name, a, hname', hnamed⟩

theorem readBoundary_cut {p : Primitive}
    (h : readBoundary b (cs ++ [')']) = some (p, rest ++ [')'])) :
    readBoundary b cs = some (p, rest) ∨ Strays b p rest := by
  by_cases hbrace : cs.head? = some '\x7b'
  · obtain ⟨inside, rfl⟩ := List.head?_eq_some_iff.mp hbrace
    rw [List.cons_append] at h
    rcases skip_close_cases b inside with hnil | ⟨hskip, heq⟩ | ⟨c, ds, hskip, heq⟩
    · rw [readBoundary_nil hnil] at h
      cases h
    · -- The parenthesis made the difference: the name of a boundary is missing without it.
      rw [readBoundary_brace heq, if_neg (by decide)] at h
      have hcut : some (_, '\x7b' :: inside) = some (p, rest) := some_of_cut h
      cases hcut
      exact .inr ⟨rfl, inside, rfl, hskip⟩
    · rw [readBoundary_brace heq] at h
      rw [readBoundary_brace hskip]
      split at h
      · next hchar =>
        rw [if_pos hchar]
        exact .inl (namedBoundary?_cut h)
      · next hchar =>
        rw [if_neg hchar]
        exact .inl (some_of_cut h)
  · have hbrace' : (cs ++ [')']).head? ≠ some '\x7b' := by
      cases cs with
      | nil => decide
      | cons c cs => exact hbrace
    rw [readBoundary_plain hbrace'] at h
    rw [readBoundary_plain hbrace]
    exact .inl (some_of_cut h)

theorem readEscape_cut {p : Primitive} (h : readEscape b (cs ++ [')']) = some (p, rest ++ [')'])) :
    readEscape b cs = some (p, rest) ∨ Strays b p rest := by
  cases cs with
  | nil => exact absurd (List.suffix_nil.mp ((escapeReader b ')').suffix h)) (by simp)
  | cons c cs =>
    obtain ⟨read, hread, hcut, hreader⟩ : ∃ read, read (cs ++ [')']) = some (p, rest ++ [')']) ∧
        readEscape b (c :: cs) = read cs ∧ EscapeReader b read :=
      ⟨_, h, rfl, escapeReader b c⟩
    rw [hcut]
    cases hreader with
    | unknown => cases hread
    | letter p' => exact .inl (some_of_cut hread)
    | hex hdigits => exact .inl (readHex_cut hdigits hread)
    | property negated => exact .inl (readProperty_cut hread)
    | boundary => exact readBoundary_cut hread

/-! ## Classes -/

theorem readClassItem_cut {p : Primitive}
    (h : readClassItem b (cs ++ [')']) = some (p, rest ++ [')'])) :
    readClassItem b cs = some (p, rest) ∨ Strays b p rest := by
  cases cs with
  | nil => exact absurd (List.suffix_nil.mp (readClassItem_suffix h)) (by simp)
  | cons c cs =>
    rw [List.cons_append] at h
    by_cases hc : c = '\\'
    · subst hc
      exact readEscape_cut h
    · rw [readClassItem_of_ne hc] at h ⊢
      exact .inl (some_of_cut h)

theorem rangeTo?_cut {first : Primitive} {set : ClassSet}
    (h : rangeTo? b first (cs ++ [')']) = some (set, rest ++ [')'])) :
    rangeTo? b first cs = some (set, rest) := by
  obtain ⟨last, lo, hi, hitem, hlo, hhi, hle, hset⟩ := rangeTo?_eq_some.mp h
  rcases readClassItem_cut hitem with hitem' | ⟨rfl, -⟩
  · exact rangeTo?_eq_some.mpr ⟨last, lo, hi, hitem', hlo, hhi, hle, hset⟩
  · -- An anchor is no end of a range.
    cases hhi

theorem rangeAfter?_cut {first : Primitive} (hrest : rest ≠ []) {set : ClassSet}
    (h : rangeAfter? b first (cs ++ [')']) = some (set, rest ++ [')'])) :
    rangeAfter? b first cs = some (set, rest) := by
  have hsame {s : Option ClassSet}
      (h : s.map (·, cs ++ [')']) = some (set, rest ++ [')'])) : s.map (·, cs) = some (set, rest) := by
    obtain ⟨set, rfl, hset⟩ := Option.map_eq_some_iff.mp h
    exact some_of_cut (congrArg some hset)
  cases cs with
  | nil =>
    obtain ⟨s, -, h⟩ := Option.map_eq_some_iff.mp h
    exact absurd (List.append_cancel_right (Prod.mk.inj h).2).symm hrest
  | cons c after =>
    rw [List.cons_append, rangeAfter?] at h
    rw [rangeAfter?]
    split at h
    · next hc =>
      rw [if_pos hc]
      rcases skip_close_cases b after with hnil | ⟨-, heq⟩ | ⟨d, last, hskip, heq⟩
      · rw [hnil] at h
        cases h
      · -- The parenthesis would be the end of the range, so that nothing is left.
        rw [heq] at h
        obtain ⟨p, -, -, hitem, -⟩ := rangeTo?_eq_some.mp h
        rw [readClassItem_of_ne (by decide)] at hitem
        simp at hitem
      · rw [heq] at h
        rw [hskip]
        dsimp only at h ⊢
        split at h
        · next hd =>
          rw [if_pos hd]
          exact hsame h
        · next hd =>
          rw [if_neg hd]
          exact rangeTo?_cut h
    · next hc =>
      rw [if_neg hc]
      exact hsame h

theorem readRange_cut (hrest : rest ≠ []) {set : ClassSet}
    (h : readRange b (cs ++ [')']) = some (set, rest ++ [')'])) :
    readRange b cs = some (set, rest) := by
  rw [readRange_eq] at h ⊢
  obtain ⟨⟨first, left⟩, hitem, h⟩ := Option.bind_eq_some_iff.mp h
  have hleft : left <:+ cs ++ [')'] := by
    cases cs with
    | nil => exact (readClassItem_suffix hitem).trans (List.suffix_cons _ _)
    | cons c cs => exact (readClassItem_suffix hitem).trans (List.suffix_cons _ _)
  obtain ⟨left, rfl⟩ := exists_cut ((rangeAfter?_suffix h).trans (skip_suffix b left)) hleft
  rw [skip_cut (rangeAfter?_suffix h)] at h
  rcases readClassItem_cut hitem with hitem | ⟨rfl, inside, rfl, -⟩
  · rw [hitem, Option.bind_some]
    exact rangeAfter?_cut hrest h
  · -- An anchor is no item of a class.
    rw [skip_brace, List.cons_append, rangeAfter?, if_neg (by decide)] at h
    cases h

theorem readDashes_cut {fuel fuel' : Nat} (hlt : cs.length < fuel) (hrest : rest ≠ [])
    {items items' : List ClassSet}
    (h : readDashes b fuel' items (cs ++ [')']) = some (items', rest ++ [')'])) :
    readDashes b fuel items cs = some (items', rest) := by
  induction fuel' generalizing fuel items cs with
  | zero => cases h
  | succ fuel' ih =>
    obtain ⟨fuel, rfl⟩ := Nat.exists_eq_add_one_of_ne_zero (Nat.ne_zero_of_lt hlt)
    cases cs with
    | nil =>
      have hcut : some (items, []) = some (items', rest) := some_of_cut h
      cases hcut
      exact absurd rfl hrest
    | cons c cs =>
      rw [List.cons_append, readDashes] at h
      rw [readDashes]
      split at h
      · next hc =>
        rw [skip_cut (readDashes_suffix h)] at h
        rw [if_pos hc]
        exact ih (length_skip_lt hlt) h
      · next hc =>
        rw [if_neg hc]
        exact some_of_cut h

theorem classSign_cut (h : rest ++ [')'] <:+ (classSign b (cs ++ [')'])).2) :
    classSign b (cs ++ [')']) = ((classSign b cs).1, (classSign b cs).2 ++ [')']) := by
  cases cs with
  | nil => rfl
  | cons c cs =>
    rw [List.cons_append, classSign] at h ⊢
    rw [classSign]
    split at h
    · next hc => rw [if_pos hc, if_pos hc, skip_cut h]
    · next hc =>
      rw [if_neg hc, if_neg hc]
      rfl

theorem classStart?_cut {negated : Bool} {items : List ClassSet} (hrest : rest ≠ [])
    {start : Bool × List ClassSet}
    (h : classStart? b negated items (cs ++ [')']) = some (start, rest ++ [')'])) :
    classStart? b negated items cs = some (start, rest) := by
  by_cases hbracket : items = [] ∧ cs.head? = some ']'
  · obtain ⟨rfl, hhead⟩ := hbracket
    obtain ⟨cs, rfl⟩ := List.head?_eq_some_iff.mp hhead
    rw [List.cons_append, classStart?_bracket] at h
    split at h
    · cases h
    · obtain ⟨rfl, heq⟩ := Prod.mk.inj (Option.some.inj h)
      have hleft : rest ++ [')'] <:+ skip b (cs ++ [')']) := heq ▸ List.suffix_refl _
      rw [skip_cut hleft] at heq
      obtain rfl := List.append_cancel_right heq
      rw [classStart?_bracket, if_neg (by simpa using hrest)]
  · have hbracket' : ¬(items = [] ∧ (cs ++ [')']).head? = some ']') := by
      cases cs with
      | nil => simp
      | cons c cs => exact hbracket
    rw [classStart?_plain hbracket'] at h
    rw [classStart?_plain hbracket]
    exact some_of_cut h

theorem readClassOpen_cut (hrest : rest ≠ []) {start : Bool × List ClassSet}
    (h : readClassOpen b (cs ++ [')']) = some (start, rest ++ [')'])) :
    readClassOpen b cs = some (start, rest) := by
  rw [readClassOpen_eq] at h ⊢
  obtain ⟨⟨items, left⟩, hdashes, h⟩ := Option.bind_eq_some_iff.mp h
  have hleft := (classStart?_suffix h).trans (readDashes_suffix hdashes)
  have hskip := skip_cut (hleft.trans (classSign_suffix _))
  rw [hskip] at h hdashes hleft
  have hsign := classSign_cut hleft
  rw [hsign] at h hdashes hleft
  obtain ⟨left, rfl⟩ := exists_cut (classStart?_suffix h) (readDashes_suffix hdashes)
  have hnil : left ≠ [] := by
    rintro rfl
    cases items <;>
      exact hrest (List.append_cancel_right (Prod.mk.inj (Option.some.inj h)).2).symm
  rw [readDashes_cut (Nat.lt_succ_self _) hnil hdashes, Option.bind_some]
  exact classStart?_cut hrest h

theorem readClassBody_paren {fuel : Nat} {pending : Option (ClassOp × ClassSet)}
    {items : List ClassSet} (hskip : skip b cs = [')']) :
    readClassBody b fuel pending items cs = none := by
  cases fuel with
  | zero => rfl
  | succ fuel =>
    rw [readClassBody_begins ⟨by decide, by decide, fun h => absurd rfl h⟩ hskip, readRange_eq,
      readClassItem_of_ne (by decide), Option.bind_some, skip_nil]
    rfl

theorem ne_nil_of_readClassBody {fuel : Nat} {pending : Option (ClassOp × ClassSet)}
    {items : List ClassSet} {r : ClassSet × List Char}
    (h : readClassBody b fuel pending items (cs ++ [')']) = some r) : cs ≠ [] := by
  rintro rfl
  rw [List.nil_append, readClassBody_paren (skip_tail .close)] at h
  cases h

theorem readClassBody_cut {fuel fuel' : Nat} (hlt : cs.length < fuel)
    {pending : Option (ClassOp × ClassSet)} {items : List ClassSet} {set : ClassSet}
    (h : readClassBody b fuel' pending items (cs ++ [')']) = some (set, rest ++ [')'])) :
    readClassBody b fuel pending items cs = some (set, rest) := by
  induction fuel' generalizing fuel pending items cs set rest with
  | zero => cases h
  | succ fuel' ih =>
    obtain ⟨fuel, rfl⟩ := Nat.exists_eq_add_one_of_ne_zero (Nat.ne_zero_of_lt hlt)
    rcases skip_close_cases b cs with hnil | ⟨-, heq⟩ | ⟨c, ds, hskip, heq⟩
    · rw [readClassBody_nil hnil] at h
      cases h
    · rw [readClassBody_paren heq] at h
      cases h
    have hlt' : ds.length < fuel := length_lt_of_skip hskip hlt
    rcases exists_classStep c ds with rfl | rfl | ⟨op, ds, hop, rfl⟩ | hitem
    · rw [readClassBody_open heq, asciiClass?_append .close] at h
      rw [readClassBody_open hskip]
      cases hascii : asciiClass? ds with
      | some named =>
        rw [hascii] at h
        exact ih (Nat.lt_of_le_of_lt (asciiClass?_suffix hascii).length_le hlt') h
      | none =>
        rw [hascii] at h
        obtain ⟨⟨start, inside⟩, hopen, h⟩ := Option.bind_eq_some_iff.mp h
        obtain ⟨⟨inner, left⟩, hinner, h⟩ := Option.bind_eq_some_iff.mp h
        have hinside := readClassOpen_suffix hopen
        have hleft := readClassBody_suffix hinner
        -- The parenthesis is left in the end, so it was left after each of the readers before.
        obtain ⟨left, rfl⟩ := exists_cut (readClassBody_suffix h) (hleft.trans hinside)
        obtain ⟨inside, rfl⟩ := exists_cut hleft hinside
        have hopen' := readClassOpen_cut (ne_nil_of_readClassBody hinner) hopen
        have hinside' := Nat.lt_of_le_of_lt (readClassOpen_suffix hopen').length_le hlt'
        have hinner' := ih hinside' hinner
        dsimp only
        rw [hopen', Option.bind_some, hinner', Option.bind_some]
        exact ih (Nat.lt_of_le_of_lt (readClassBody_suffix hinner').length_le hinside') h
    · rw [readClassBody_close heq] at h
      rw [readClassBody_close hskip]
      exact some_of_cut h
    · rw [readClassBody_op hop heq] at h
      rw [readClassBody_op hop hskip]
      exact ih (Nat.lt_of_succ_lt hlt') h
    · rw [readClassBody_begins (hitem.append .close) heq] at h
      obtain ⟨⟨item, left⟩, hrange, h⟩ := Option.bind_eq_some_iff.mp h
      obtain ⟨left, rfl⟩ := exists_cut (readClassBody_suffix h) (readRange_suffix hrange)
      rw [← List.cons_append] at hrange
      have hrange' := readRange_cut (ne_nil_of_readClassBody h) hrange
      rw [readClassBody_begins hitem hskip, hrange', Option.bind_some]
      exact ih (Nat.lt_of_le_of_lt (readRange_suffix hrange').length_le hlt') h

theorem readClass_cut {a : Ast} (h : readClass b (cs ++ [')']) = some (a, rest ++ [')'])) :
    readClass b cs = some (a, rest) := by
  obtain ⟨⟨⟨negated, first⟩, inside⟩, hopen, h⟩ := Option.bind_eq_some_iff.mp h
  obtain ⟨⟨set, left⟩, hbody, h⟩ := Option.bind_eq_some_iff.mp h
  obtain ⟨rfl, rfl⟩ := Prod.mk.inj (Option.some.inj h)
  obtain ⟨inside, rfl⟩ := exists_cut (readClassBody_suffix hbody) (readClassOpen_suffix hopen)
  rw [readClass, readClassOpen_cut (ne_nil_of_readClassBody hbody) hopen]
  simp only [Option.bind_eq_bind, Option.bind_some]
  rw [readClassBody_cut (Nat.lt_succ_self _) hbody]
  rfl

/-! ## Repetition -/

theorem readCount_cut {n : Nat} (h : readCount (cs ++ [')']) = some (n, rest ++ [')'])) :
    readCount cs = some (n, rest) := by
  rw [readCount_append .close] at h
  obtain ⟨⟨m, left⟩, hcount, h⟩ := Option.map_eq_some_iff.mp h
  obtain ⟨rfl, heq⟩ := Prod.mk.inj h
  obtain rfl := List.append_cancel_right heq
  exact hcount

theorem boundsTo?_cut {min : Nat} {bounds : Nat × Option Nat}
    (h : boundsTo? min (cs ++ [')']) = some (bounds, rest ++ [')'])) :
    boundsTo? min cs = some (bounds, rest) := by
  obtain ⟨max, hcount, hbounds⟩ := boundsTo?_eq_some.mp h
  rw [← List.cons_append] at hcount
  exact boundsTo?_eq_some.mpr ⟨max, readCount_cut hcount, hbounds⟩

theorem boundsAfter?_cut {min : Nat} {bounds : Nat × Option Nat}
    (h : boundsAfter? b min (cs ++ [')']) = some (bounds, rest ++ [')'])) :
    boundsAfter? b min cs = some (bounds, rest) := by
  cases cs with
  | nil => cases h
  | cons c cs =>
    rw [List.cons_append, boundsAfter?] at h
    rw [boundsAfter?]
    split at h
    · next hc =>
      rw [if_pos hc]
      exact some_of_cut h
    · next hc =>
      rw [if_neg hc]
      split at h
      · next hcomma =>
        rw [if_pos hcomma]
        rcases skip_close_cases b cs with hnil | ⟨-, heq⟩ | ⟨d, ds, hskip, heq⟩
        · rw [hnil] at h
          cases h
        · rw [heq] at h
          cases h
        · rw [heq] at h
          rw [hskip]
          dsimp only at h ⊢
          split at h
          · next hd =>
            rw [if_pos hd]
            exact some_of_cut h
          · next hd =>
            rw [if_neg hd]
            exact boundsTo?_cut h
      · cases h

theorem readBounds_cut {bounds : Nat × Option Nat}
    (h : readBounds b (cs ++ [')']) = some (bounds, rest ++ [')'])) :
    readBounds b cs = some (bounds, rest) := by
  rw [readBounds_eq] at h ⊢
  obtain ⟨⟨min, left⟩, hcount, h⟩ := Option.bind_eq_some_iff.mp h
  have hsuffix := (boundsAfter?_suffix h).trans (readCount_suffix hcount)
  rw [skip_cut hsuffix] at hcount hsuffix
  obtain ⟨left, rfl⟩ := exists_cut (boundsAfter?_suffix h) (readCount_suffix hcount)
  rw [readCount_cut hcount, Option.bind_some]
  exact boundsAfter?_cut h

/-- There are no bounds of a repetition behind an opening brace and blanks. -/
theorem readBounds_paren (hskip : skip b cs = []) : readBounds b (cs ++ [')']) = none := by
  have hcount : readCount [')'] = none := by decide +kernel
  rw [readBounds_eq]
  rcases skip_close b cs with heq | hnil
  · rw [heq, hskip, List.nil_append, hcount]
    rfl
  · rw [hnil]
    rfl

theorem repeated?_cut {d d' : GroupDraft} {min : Nat} {max : Option Nat}
    (h : d.repeated? min max (cs ++ [')']) = some (d', rest ++ [')'])) :
    d.repeated? min max cs = some (d', rest) := by
  obtain ⟨hgreedy, hrest⟩ := readGreed_trails .close (.append cs [')'])
  rw [repeated?_eq] at h ⊢
  obtain ⟨parts, hparts, h⟩ := Option.bind_eq_some_iff.mp h
  obtain ⟨rfl, heq⟩ := Prod.mk.inj (Option.some.inj h)
  rw [hgreedy] at hparts
  rw [hparts, Option.bind_some]
  rcases hrest with heq' | ⟨-, hnil⟩
  · rw [List.append_cancel_right (heq'.symm.trans heq)]
  · rw [hnil] at heq
    exact absurd heq (by simp)

/-! ## Groups -/

theorem readFlags_cut {on dangling : Bool} {done flags : FlagSet} (hrest : rest ≠ [])
    (h : readFlags on dangling done (cs ++ [')']) = some (flags, rest ++ [')'])) :
    readFlags on dangling done cs = some (flags, rest) := by
  induction cs generalizing on dangling done with
  | nil =>
    rw [List.nil_append, readFlags, if_pos (by decide)] at h
    split at h
    · cases h
    · exact absurd (List.append_cancel_right (Prod.mk.inj (Option.some.inj h)).2).symm hrest
  | cons c cs ih =>
    rw [List.cons_append, readFlags] at h
    rw [readFlags]
    split at h
    · next hend =>
      rw [if_pos hend]
      split at h
      · cases h
      · next hdangling =>
        rw [if_neg hdangling]
        exact some_of_cut h
    · next hend =>
      rw [if_neg hend]
      split at h
      · next hminus =>
        rw [if_pos hminus]
        split at h
        · next hon =>
          rw [if_pos hon]
          exact ih h
        · cases h
      · next hminus =>
        rw [if_neg hminus]
        obtain ⟨f, hf, h⟩ := Option.bind_eq_some_iff.mp h
        rw [hf, Option.bind_eq_bind, Option.bind_some]
        split at h
        · cases h
        · next hnew =>
          rw [if_neg hnew]
          exact ih h

theorem readName_cut {done name : List Char}
    (h : readName done (cs ++ [')']) = some (name, rest ++ [')'])) :
    readName done cs = some (name, rest) := by
  induction cs generalizing done with
  | nil =>
    rw [List.nil_append, readName, if_neg (by decide)] at h
    split at h <;> cases h
  | cons c cs ih =>
    rw [List.cons_append, readName] at h
    rw [readName]
    split at h
    · next hend =>
      rw [if_pos hend]
      split at h
      · cases h
      · next hdone =>
        rw [if_neg hdone]
        exact some_of_cut h
    · next hend =>
      rw [if_neg hend]
      split at h
      · next hchar =>
        rw [if_pos hchar]
        exact ih h
      · cases h

theorem flagsOpen?_cut {start : GroupOpen}
    (h : flagsOpen? (cs ++ [')']) = some (start, rest ++ [')'])) :
    flagsOpen? cs = some (start, rest) := by
  rw [flagsOpen?] at h
  split at h
  · next hflags =>
    split at h
    · cases h
    · next hsome =>
      obtain ⟨rfl, rfl⟩ := Prod.mk.inj (Option.some.inj h)
      rw [← List.cons_append] at hflags
      rw [flagsOpen?, readFlags_cut (List.cons_ne_nil _ _) hflags]
      exact if_neg hsome
  · next hflags =>
    obtain ⟨rfl, rfl⟩ := Prod.mk.inj (Option.some.inj h)
    rw [← List.cons_append] at hflags
    rw [flagsOpen?, readFlags_cut (List.cons_ne_nil _ _) hflags]
    rfl
  · cases h

theorem specialOpen?_cut {start : GroupOpen}
    (h : specialOpen? (cs ++ [')']) = some (start, rest ++ [')'])) :
    specialOpen? cs = some (start, rest) := by
  have hname {text : List Char}
      (h : (readName [] (text ++ [')'])).map (fun r => (GroupOpen.capture r.1, r.2)) =
        some (start, rest ++ [')'])) :
      (readName [] text).map (fun r => (GroupOpen.capture r.1, r.2)) = some (start, rest) := by
    obtain ⟨⟨name, left⟩, hname, h⟩ := Option.map_eq_some_iff.mp h
    obtain ⟨rfl, rfl⟩ := Prod.mk.inj h
    rw [readName_cut hname, Option.map_some]
  cases cs with
  | nil => cases h
  | cons c cs =>
    rw [List.cons_append, specialOpen?] at h
    rw [specialOpen?]
    split at h
    · cases h
    · next hfirst =>
      rw [if_neg hfirst]
      split at h
      · next hangle =>
        rw [if_pos hangle]
        split at h
        · cases h
        · next hlook =>
          rw [if_neg, hname h]
          intro hhead
          refine hlook (hhead.imp ?_ ?_) <;>
          · intro hhead
            rw [List.head?_append, hhead]
            rfl
      · next hangle =>
        rw [if_neg hangle]
        split at h
        · next hletter =>
          rw [if_pos hletter]
          split at h
          · next hhead =>
            cases cs with
            | nil => cases hhead
            | cons d cs =>
              rw [List.cons_append, List.head?_cons] at hhead
              rw [List.head?_cons, if_pos hhead]
              exact hname h
          · cases h
        · next hletter =>
          rw [if_neg hletter]
          exact flagsOpen?_cut h

theorem readGroupOpen_cut {start : GroupOpen}
    (h : readGroupOpen b (cs ++ [')']) = some (start, rest ++ [')'])) :
    readGroupOpen b cs = some (start, rest) := by
  rw [readGroupOpen_eq] at h ⊢
  rcases skip_close_cases b cs with hnil | ⟨hskip, heq⟩ | ⟨c, ds, hskip, heq⟩
  · rw [hnil] at h
    simp [groupOpen?] at h
  · rw [heq] at h
    rw [hskip]
    exact some_of_cut h
  · rw [heq, groupOpen?] at h
    rw [hskip, groupOpen?]
    split at h
    · next hc =>
      rw [if_pos hc]
      exact specialOpen?_cut h
    · next hc =>
      rw [if_neg hc]
      exact some_of_cut h

/-! ### Items -/

theorem ItemReader.cut {d d' : GroupDraft} {read : List Char → Option (GroupDraft × List Char)}
    (hreader : ItemReader d read) (h : read (cs ++ [')']) = some (d', rest ++ [')'])) :
    read cs = some (d', rest) ∨
      d' = d.push (.anchor .wordBoundary) ∧ ∃ inside, rest = '\x7b' :: inside ∧
        skip d.blanks inside = [] := by
  cases hreader with
  | char d' => exact .inl (some_of_cut h)
  | inClass =>
    obtain ⟨⟨a, left⟩, hclass, h⟩ := Option.map_eq_some_iff.mp h
    obtain ⟨rfl, rfl⟩ := Prod.mk.inj h
    dsimp only
    rw [readClass_cut hclass]
    exact .inl rfl
  | repetition min max => exact .inl (repeated?_cut h)
  | counted =>
    obtain ⟨⟨bounds, left⟩, hbounds, h⟩ := Option.bind_eq_some_iff.mp h
    obtain ⟨left, rfl⟩ := exists_cut (repeated?_suffix h) (readBounds_suffix hbounds)
    dsimp only
    rw [readBounds_cut hbounds, Option.bind_some]
    exact .inl (repeated?_cut h)
  | escape =>
    obtain ⟨⟨p, left⟩, hescape, h⟩ := Option.map_eq_some_iff.mp h
    obtain ⟨rfl, rfl⟩ := Prod.mk.inj h
    rcases readEscape_cut hescape with hescape' | ⟨rfl, hinside⟩
    · dsimp only
      rw [hescape']
      exact .inl rfl
    · exact .inr ⟨rfl, hinside⟩

/-! ### Content -/

theorem not_closed_of_nil {n : Nat} {d : GroupDraft} {read : GroupRead}
    (h : readGroup n d [] = some (read, rest)) : read.closed = false := by
  cases n with
  | zero => cases h
  | succ n =>
    rw [readGroup_end skip_nil] at h
    cases h
    rfl

theorem groupAfter_not_closed {n : Nat} {d : GroupDraft} {start : GroupOpen} {read : GroupRead}
    (h : groupAfter n d start [] = some (read, rest)) : read.closed = false := by
  have hbody {inner : GroupDraft} {flags : FlagSet} : groupBody n d inner flags [] = none := by
    rw [groupBody]
    split
    · next hinner => cases not_closed_of_nil hinner
    · rfl
  cases start with
  | setFlags flags => exact not_closed_of_nil h
  | flagged flags =>
    rw [groupAfter, hbody] at h
    cases h
  | capture name =>
    rw [groupAfter, hbody, ite_self] at h
    cases h

/-- What is read of a text, given a closed group that is read of it with a parenthesis behind it:
the same, but that the group ends with the text if the parenthesis closed it. -/
inductive Cuts (read : GroupRead) : List Char → Option (GroupRead × List Char) → Prop where
  /-- The parenthesis closed the group. -/
  | behind : Cuts read [] (some ({ read with closed := false }, []))
  /-- The group was closed before. -/
  | inside (rest : List Char) : Cuts read (rest ++ [')']) (some (read, rest))

theorem groupAfter_cut {n n' : Nat} {d : GroupDraft} {start : GroupOpen} {read : GroupRead}
    (hlt : cs.length < n)
    (ih : ∀ {cs : List Char} {n : Nat} {d : GroupDraft} {read : GroupRead} {rest : List Char},
      cs.length < n → readGroup n' d (cs ++ [')']) = some (read, rest) → read.closed = true →
        Cuts read rest (readGroup n d cs))
    (h : groupAfter n' d start (cs ++ [')']) = some (read, rest)) (hclosed : read.closed = true) :
    Cuts read rest (groupAfter n d start cs) := by
  have hbody {inner : GroupDraft} {flags : FlagSet}
      (h : groupBody n' d inner flags (cs ++ [')']) = some (read, rest)) :
      Cuts read rest (groupBody n d inner flags cs) := by
    rw [groupBody] at h
    split at h
    · next body names left hinner =>
      obtain ⟨result, hresult, hcuts⟩ : ∃ result, readGroup n inner cs = result ∧
        Cuts ⟨body, names, true⟩ left result := ⟨_, rfl, ih hlt hinner rfl⟩
      cases hcuts with
      | behind =>
        rw [not_closed_of_nil h] at hclosed
        cases hclosed
      | inside left =>
        rw [groupBody, hresult]
        exact ih (Nat.lt_of_le_of_lt (readGroup_suffix hresult).length_le hlt) h hclosed
    · cases h
  cases start with
  | setFlags flags => exact ih hlt h hclosed
  | flagged flags => exact hbody h
  | capture name =>
    rw [groupAfter] at h ⊢
    split at h
    · cases h
    · next hnew =>
      rw [if_neg hnew]
      exact hbody h

/-- A boundary of words cannot be followed by a brace that only blanks follow: the brace would have
to be the start of bounds. -/
theorem readGroup_stray {n : Nat} {d : GroupDraft} {inside : List Char}
    (hinside : skip d.blanks inside = []) :
    readGroup n (d.push (.anchor .wordBoundary)) ('\x7b' :: inside ++ [')']) = none := by
  cases n with
  | zero => rfl
  | succ n =>
    have hbounds : readItem? (d.push (.anchor .wordBoundary)) '\x7b' (inside ++ [')']) = none := by
      change (readBounds d.blanks (inside ++ [')'])).bind _ = none
      rw [readBounds_paren hinside]
      rfl
    rw [List.cons_append, readGroup_item (by decide) (by decide) skip_brace, hbounds]
    rfl

/-- A group that is closed in a text with a parenthesis behind it is read in the same way without
the parenthesis. -/
theorem readGroup_cut {n n' : Nat} (hlt : cs.length < n) {d : GroupDraft} {read : GroupRead}
    (h : readGroup n' d (cs ++ [')']) = some (read, rest)) (hclosed : read.closed = true) :
    Cuts read rest (readGroup n d cs) := by
  induction n' generalizing n d cs read rest with
  | zero => cases h
  | succ n' ih =>
    obtain ⟨n, rfl⟩ := Nat.exists_eq_add_one_of_ne_zero (Nat.ne_zero_of_lt hlt)
    rcases skip_close_cases d.blanks cs with hnil | ⟨hskip, heq⟩ | ⟨c, ds, hskip, heq⟩
    · rw [readGroup_end hnil] at h
      cases h
      cases hclosed
    · rw [readGroup_closed heq] at h
      cases h
      rw [readGroup_end hskip]
      exact .behind
    have hlt' : ds.length < n := length_lt_of_skip hskip hlt
    by_cases hclose : c = ')'
    · subst hclose
      rw [readGroup_closed heq] at h
      cases h
      rw [readGroup_closed hskip]
      exact .inside ds
    by_cases hopen : c = '('
    · subst hopen
      rw [readGroup_opened heq] at h
      obtain ⟨⟨start, left⟩, hstart, h⟩ := Option.bind_eq_some_iff.mp h
      rcases List.suffix_concat_iff.mp (readGroupOpen_suffix hstart) with rfl | ⟨left, rfl, -⟩
      · rw [groupAfter_not_closed h] at hclosed
        cases hclosed
      · have hstart' := readGroupOpen_cut hstart
        rw [readGroup_opened hskip, hstart', Option.bind_some]
        exact groupAfter_cut (Nat.lt_of_le_of_lt (readGroupOpen_suffix hstart').length_le hlt')
          (fun hlt h hclosed => ih hlt h hclosed) h hclosed
    · rw [readGroup_item hopen hclose heq] at h
      obtain ⟨⟨d', left⟩, hitem, h⟩ := Option.bind_eq_some_iff.mp h
      rcases List.suffix_concat_iff.mp ((itemReader d c).suffix hitem) with rfl | ⟨left, rfl, -⟩
      · rw [not_closed_of_nil h] at hclosed
        cases hclosed
      rcases (itemReader d c).cut hitem with hitem' | ⟨rfl, inside, rfl, hinside⟩
      · rw [readGroup_item hopen hclose hskip, hitem', Option.bind_some]
        exact ih (Nat.lt_of_le_of_lt ((itemReader d c).suffix hitem').length_le hlt') h hclosed
      · rw [readGroup_stray hinside] at h
        cases h

end Regex

end PegMachine
