import PegMachine.Regex.Parser

/-!
# The readers of patterns

Equations for the readers of patterns, each cut into the steps that it makes, and what they leave:
an end of the text that they were given.
-/

namespace PegMachine

namespace Regex

variable {cs cs' rest : List Char} {b : Bool}

/-! ## Blanks -/

theorem skip_nil : skip b [] = [] := by cases b <;> rfl

theorem skipBlanks_suffix (inComment : Bool) (cs : List Char) : skipBlanks inComment cs <:+ cs := by
  induction cs generalizing inComment with
  | nil => exact List.suffix_refl _
  | cons c cs ih =>
    have hcons (inComment : Bool) := (ih inComment).trans (List.suffix_cons c cs)
    rw [skipBlanks]
    split
    · exact hcons _
    · split
      · exact hcons _
      · split
        · exact hcons _
        · exact List.suffix_refl _

theorem skip_suffix (b : Bool) (cs : List Char) : skip b cs <:+ cs := by
  cases b with
  | false => exact List.suffix_refl _
  | true => exact skipBlanks_suffix false cs

/-- What is left after more of a text is an end of it. -/
theorem suffix_cons_of_skip {c : Char} (h : rest <:+ skip b cs) : rest <:+ c :: cs :=
  (h.trans (skip_suffix b cs)).trans (List.suffix_cons c cs)

theorem suffix_of_skip_cons {c : Char} {ds : List Char} (hskip : skip b cs = c :: ds)
    (h : rest <:+ ds) : rest <:+ cs :=
  (h.trans (List.suffix_cons c ds)).trans (hskip ▸ skip_suffix b cs)

/-! ## Numbers and names -/

theorem readHexDigits_cons (n value : Nat) (c : Char) (cs : List Char) :
    readHexDigits b (n + 1) value (c :: cs) = (hexValue? c).bind fun d =>
      if (skip b cs).isEmpty && n ≠ 0 then none
      else readHexDigits b n (16 * value + d) (skip b cs) := by
  rw [readHexDigits]
  cases hexValue? c with
  | none => rfl
  | some d =>
    dsimp only [Option.bind_eq_bind, Option.bind_some]
    split <;> rfl

theorem readHexDigits_suffix {n value m : Nat} (h : readHexDigits b n value cs = some (m, rest)) :
    rest <:+ cs := by
  induction n generalizing value cs with
  | zero =>
    cases h
    exact List.suffix_refl _
  | succ n ih =>
    cases cs with
    | nil => cases h
    | cons c cs =>
      rw [readHexDigits_cons] at h
      obtain ⟨d, -, h⟩ := Option.bind_eq_some_iff.mp h
      split at h
      · cases h
      · exact suffix_cons_of_skip (ih h)

theorem readHexBraced_suffix {fuel : Nat} {value : Option Nat} {m : Nat}
    (h : readHexBraced b fuel value cs = some (m, rest)) : rest <:+ cs := by
  induction fuel generalizing value cs with
  | zero => cases h
  | succ fuel ih =>
    cases cs with
    | nil => cases h
    | cons c cs =>
      rw [readHexBraced] at h
      split at h
      · obtain ⟨n, -, hn⟩ := Option.map_eq_some_iff.mp h
        cases hn
        exact List.suffix_cons _ _
      · obtain ⟨d, -, h⟩ := Option.bind_eq_some_iff.mp h
        exact suffix_cons_of_skip (ih h)

theorem readBraced_suffix {fuel : Nat} {done text : List Char}
    (h : readBraced b fuel done cs = some (text, rest)) : rest <:+ cs := by
  induction fuel generalizing done cs with
  | zero => cases h
  | succ fuel ih =>
    cases cs with
    | nil => cases h
    | cons c cs =>
      rw [readBraced] at h
      split at h
      · cases h
        exact List.suffix_cons _ _
      · exact suffix_cons_of_skip (ih h)

theorem readBoundaryName_suffix {fuel : Nat} {done text : List Char}
    (h : readBoundaryName b fuel done cs = some (text, rest)) : rest <:+ cs := by
  induction fuel generalizing done cs with
  | zero => cases h
  | succ fuel ih =>
    cases cs with
    | nil => cases h
    | cons c cs =>
      rw [readBoundaryName] at h
      split at h
      · cases h
        exact List.suffix_cons _ _
      · split at h
        · exact suffix_cons_of_skip (ih h)
        · cases h

/-! ## Escapes -/

/-- The number of a character, after blanks. -/
def hexNumber? (b : Bool) (digits : Nat) : List Char → Option (Nat × List Char)
  | [] => none
  | c :: cs =>
    if c = '\x7b' then readHexBraced b (cs.length + 1) none (skip b cs)
    else readHexDigits b digits 0 (c :: cs)

theorem readHex_eq (digits : Nat) (cs : List Char) :
    readHex b digits cs = (hexNumber? b digits (skip b cs)).bind fun r =>
      (charOf? r.1).map fun c => (.literal c true, r.2) := by
  rw [readHex]
  cases skip b cs with
  | nil => rfl
  | cons c cs =>
    by_cases hc : c = '\x7b' <;> simp [hexNumber?, hc, Option.map_eq_bind, Function.comp_def]

theorem readHex_suffix {digits : Nat} {p : Primitive} (h : readHex b digits cs = some (p, rest)) :
    rest <:+ cs := by
  rw [readHex_eq] at h
  obtain ⟨⟨n, left⟩, hn, h⟩ := Option.bind_eq_some_iff.mp h
  obtain ⟨c, -, h⟩ := Option.map_eq_some_iff.mp h
  cases h
  cases hskip : skip b cs with
  | nil =>
    rw [hskip] at hn
    cases hn
  | cons d ds =>
    rw [hskip, hexNumber?] at hn
    split at hn
    · exact suffix_of_skip_cons hskip ((readHexBraced_suffix hn).trans (skip_suffix b ds))
    · exact (readHexDigits_suffix hn).trans (hskip ▸ skip_suffix b cs)

section

variable {negated : Bool} {c : Char} {inside ds : List Char}

theorem readProperty_nil (hskip : skip b cs = []) : readProperty b negated cs = none := by
  rw [readProperty, hskip]

theorem readProperty_slash (hskip : skip b cs = '\\' :: ds) :
    readProperty b negated cs = none := by
  rw [readProperty, hskip]
  rfl

theorem readProperty_braced (hskip : skip b cs = '\x7b' :: ds) :
    readProperty b negated cs = (readBraced b (ds.length + 1) [] (skip b ds)).map fun r =>
      (.property (queryOf r.1) negated, r.2) := by
  rw [readProperty, hskip]
  rfl

theorem readProperty_letter (hskip : skip b cs = c :: ds) (hbrace : c ≠ '\x7b')
    (hslash : c ≠ '\\') : readProperty b negated cs = some (.property (.named [c]) negated, ds) := by
  rw [readProperty, hskip]
  split
  · next heq => cases heq
  · next heq =>
    cases heq
    exact absurd rfl hbrace
  · next heq =>
    cases heq
    exact absurd rfl hslash
  · next heq =>
    cases heq
    rfl

/-- The boundary that is named in braces, after the first of them and blanks. -/
def namedBoundary? (b : Bool) (cs : List Char) : Option (Primitive × List Char) :=
  (readBoundaryName b (cs.length + 1) [] cs).bind fun r =>
    (boundaryOf? r.1).bind fun a => some (.anchor a, r.2)

theorem namedBoundary?_eq_some {p : Primitive} :
    namedBoundary? b cs = some (p, rest) ↔ ∃ name a,
      readBoundaryName b (cs.length + 1) [] cs = some (name, rest) ∧ boundaryOf? name = some a ∧
        p = .anchor a := by
  simp only [namedBoundary?, Option.bind_eq_some_iff, Option.some.injEq, Prod.mk.injEq,
    Prod.exists]
  constructor
  · rintro ⟨name, _, hname, a, ha, rfl, rfl⟩
    exact ⟨name, a, hname, ha, rfl⟩
  · rintro ⟨name, a, hname, ha, rfl⟩
    exact ⟨name, rest, hname, a, ha, rfl, rfl⟩

theorem readBoundary_plain (h : cs.head? ≠ some '\x7b') :
    readBoundary b cs = some (.anchor .wordBoundary, cs) := by
  unfold readBoundary
  split
  · exact absurd rfl h
  · rfl

theorem readBoundary_nil (hskip : skip b inside = []) :
    readBoundary b ('\x7b' :: inside) = none := by
  rw [readBoundary, hskip]

theorem readBoundary_brace (hskip : skip b inside = c :: ds) :
    readBoundary b ('\x7b' :: inside) =
      if isBoundaryChar c then namedBoundary? b (c :: ds)
      else some (.anchor .wordBoundary, '\x7b' :: inside) := by
  rw [readBoundary, hskip]
  rfl

end

theorem readProperty_suffix {negated : Bool} {p : Primitive}
    (h : readProperty b negated cs = some (p, rest)) : rest <:+ cs := by
  cases hskip : skip b cs with
  | nil =>
    rw [readProperty_nil hskip] at h
    cases h
  | cons c ds =>
    refine suffix_of_skip_cons hskip ?_
    by_cases hbrace : c = '\x7b'
    · subst hbrace
      rw [readProperty_braced hskip] at h
      obtain ⟨⟨text, left⟩, htext, h⟩ := Option.map_eq_some_iff.mp h
      cases h
      exact (readBraced_suffix htext).trans (skip_suffix b ds)
    · by_cases hslash : c = '\\'
      · subst hslash
        rw [readProperty_slash hskip] at h
        cases h
      · rw [readProperty_letter hskip hbrace hslash] at h
        cases h
        exact List.suffix_refl _

theorem readBoundary_suffix {p : Primitive} (h : readBoundary b cs = some (p, rest)) :
    rest <:+ cs := by
  by_cases hbrace : cs.head? = some '\x7b'
  · obtain ⟨inside, rfl⟩ := List.head?_eq_some_iff.mp hbrace
    cases hskip : skip b inside with
    | nil =>
      rw [readBoundary_nil hskip] at h
      cases h
    | cons c ds =>
      rw [readBoundary_brace hskip] at h
      split at h
      · obtain ⟨name, a, hname, -, -⟩ := namedBoundary?_eq_some.mp h
        exact suffix_cons_of_skip (hskip ▸ readBoundaryName_suffix hname)
      · cases h
        exact List.suffix_refl _
  · rw [readBoundary_plain hbrace] at h
    cases h
    exact List.suffix_refl _

/-- How the text after a backslash and one more character is read. -/
inductive EscapeReader (b : Bool) : (List Char → Option (Primitive × List Char)) → Prop where
  /-- There is no such escape. -/
  | unknown : EscapeReader b fun _ => none
  /-- The character is all there is to read. -/
  | letter (p : Primitive) : EscapeReader b fun cs => some (p, cs)
  /-- A character follows by its number. -/
  | hex {digits : Nat} (h : 0 < digits) : EscapeReader b (readHex b digits)
  /-- A property follows. -/
  | property (negated : Bool) : EscapeReader b (readProperty b negated)
  /-- The name of a boundary may follow. -/
  | boundary : EscapeReader b (readBoundary b)

theorem EscapeReader.ite {p : Prop} [Decidable p] {r r' : List Char → Option (Primitive × List Char)}
    (h : EscapeReader b r) (h' : EscapeReader b r') :
    EscapeReader b fun cs => if p then r cs else r' cs := by
  by_cases hp : p
  · simpa only [if_pos hp] using h
  · simpa only [if_neg hp] using h'

theorem escapeReader (b : Bool) (c : Char) : EscapeReader b fun cs => readEscape b (c :: cs) := by
  simp only [readEscape]
  repeat' refine .ite ?_ ?_
  all_goals first
    | exact .unknown
    | exact .letter _
    | exact .hex (by decide)
    | exact .property _
    | exact .boundary

theorem EscapeReader.suffix {read : List Char → Option (Primitive × List Char)}
    (hreader : EscapeReader b read) {p : Primitive} (h : read cs = some (p, rest)) :
    rest <:+ cs := by
  cases hreader with
  | unknown => cases h
  | letter p' =>
    cases h
    exact List.suffix_refl _
  | hex => exact readHex_suffix h
  | property negated => exact readProperty_suffix h
  | boundary => exact readBoundary_suffix h

theorem readEscape_suffix {p : Primitive} (h : readEscape b cs = some (p, rest)) :
    rest <:+ cs := by
  cases cs with
  | nil => cases h
  | cons c cs => exact ((escapeReader b c).suffix h).trans (List.suffix_cons c cs)

/-! ## Classes -/

/-- The name of a class of ASCII characters, and what ends it. -/
def asciiName? (negated : Bool) (cs : List Char) : Option (ClassSet × List Char) :=
  match cs.dropWhile (· ≠ ':') with
  | ':' :: ']' :: after =>
    (asciiClasses.find? (·.1 = String.ofList (cs.takeWhile (· ≠ ':')))).map fun r =>
      (.ascii r.2 negated, after)
  | _ => none

theorem asciiClass?_caret (cs : List Char) :
    asciiClass? (':' :: '^' :: cs) = asciiName? true cs :=
  asciiClass?.eq_1 cs

theorem asciiClass?_colon {cs : List Char} (hcs : cs.head? ≠ some '^') :
    asciiClass? (':' :: cs) = asciiName? false cs :=
  asciiClass?.eq_2 cs fun r heq => hcs (by rw [heq]; rfl)

theorem asciiClass?_of_ne {c : Char} (hc : c ≠ ':') (cs : List Char) :
    asciiClass? (c :: cs) = none := by
  unfold asciiClass?
  split
  · next heq =>
    cases heq
    exact absurd rfl hc
  · rfl

theorem asciiName?_suffix {negated : Bool} {set : ClassSet}
    (h : asciiName? negated cs = some (set, rest)) : rest <:+ cs := by
  rw [asciiName?] at h
  split at h
  · next after heq =>
    obtain ⟨r, -, h⟩ := Option.map_eq_some_iff.mp h
    cases h
    have hdrop : ':' :: ']' :: rest <:+ cs := heq ▸ List.dropWhile_suffix _
    exact ((List.suffix_cons _ _).trans (List.suffix_cons _ _)).trans hdrop
  · cases h

theorem asciiClass?_suffix {set : ClassSet} (h : asciiClass? cs = some (set, rest)) :
    rest <:+ cs := by
  cases cs with
  | nil => cases h
  | cons c cs =>
    by_cases hc : c = ':'
    · subst hc
      refine List.IsSuffix.trans ?_ (List.suffix_cons _ cs)
      cases cs with
      | nil => cases h
      | cons d cs =>
        by_cases hd : d = '^'
        · subst hd
          rw [asciiClass?_caret] at h
          exact (asciiName?_suffix h).trans (List.suffix_cons _ _)
        · rw [asciiClass?_colon (by simpa using hd)] at h
          exact asciiName?_suffix h
    · rw [asciiClass?_of_ne hc] at h
      cases h

theorem readClassItem_of_ne {c : Char} (hc : c ≠ '\\') (cs : List Char) :
    readClassItem b (c :: cs) = some (.literal c false, cs) := by
  unfold readClassItem
  split
  · next heq => cases heq
  · next heq =>
    cases heq
    exact absurd rfl hc
  · next heq =>
    cases heq
    rfl

theorem readClassItem_suffix {c : Char} {p : Primitive}
    (h : readClassItem b (c :: cs) = some (p, rest)) : rest <:+ cs := by
  by_cases hc : c = '\\'
  · subst hc
    exact readEscape_suffix h
  · rw [readClassItem_of_ne hc] at h
    cases h
    exact List.suffix_refl _

/-- The range from an item to the one that is next. -/
def rangeTo? (b : Bool) (first : Primitive) (cs : List Char) : Option (ClassSet × List Char) :=
  (readClassItem b cs).bind fun r =>
    (rangeEnd? first).bind fun lo => (rangeEnd? r.1).bind fun hi =>
      if lo ≤ hi then some (.range lo hi, r.2) else none

theorem rangeTo?_eq_some {first : Primitive} {set : ClassSet} :
    rangeTo? b first cs = some (set, rest) ↔ ∃ last lo hi,
      readClassItem b cs = some (last, rest) ∧ rangeEnd? first = some lo ∧
        rangeEnd? last = some hi ∧ lo ≤ hi ∧ set = .range lo hi := by
  simp only [rangeTo?, Option.bind_eq_some_iff, Option.ite_none_right_eq_some, Option.some.injEq,
    Prod.mk.injEq, Prod.exists]
  constructor
  · rintro ⟨last, _, hitem, lo, hlo, hi, hhi, hle, rfl, rfl⟩
    exact ⟨last, lo, hi, hitem, hlo, hhi, hle, rfl⟩
  · rintro ⟨last, lo, hi, hitem, hlo, hhi, hle, rfl⟩
    exact ⟨last, rest, hitem, lo, hlo, hi, hhi, hle, rfl, rfl⟩

/-- What is left of a range or an item, after its first end and blanks. -/
def rangeAfter? (b : Bool) (first : Primitive) : List Char → Option (ClassSet × List Char)
  | [] => none
  | c :: after =>
    if c = '-' then
      match skip b after with
      | [] => none
      | d :: last =>
        if d = ']' || d = '-' then (itemSet? first).map (·, c :: after)
        else rangeTo? b first (d :: last)
    else (itemSet? first).map (·, c :: after)

theorem readRange_eq (cs : List Char) :
    readRange b cs = (readClassItem b cs).bind fun r => rangeAfter? b r.1 (skip b r.2) := by
  rw [readRange]
  cases readClassItem b cs with
  | none => rfl
  | some r =>
    obtain ⟨first, rest⟩ := r
    simp only [Option.bind_eq_bind, Option.bind_some]
    cases skip b rest with
    | nil => rfl
    | cons c after =>
      by_cases hc : c = '-'
      · subst hc
        simp only [rangeAfter?, if_true]
        cases skip b after with
        | nil => rfl
        | cons d last =>
          by_cases hd : d = ']'
          · subst hd
            simp [Option.map_eq_bind, Function.comp_def]
          · by_cases hd' : d = '-'
            · subst hd'
              simp [Option.map_eq_bind, Function.comp_def]
            · simp [hd, hd', rangeTo?]
      · simp [rangeAfter?, hc, Option.map_eq_bind, Function.comp_def]

theorem rangeAfter?_suffix {first : Primitive} {set : ClassSet}
    (h : rangeAfter? b first cs = some (set, rest)) : rest <:+ cs := by
  have hsame {s : Option ClassSet} {text : List Char} (h : s.map (·, text) = some (set, rest)) :
      rest <:+ text := by
    obtain ⟨s, -, h⟩ := Option.map_eq_some_iff.mp h
    cases h
    exact List.suffix_refl _
  cases cs with
  | nil => cases h
  | cons c after =>
    rw [rangeAfter?] at h
    split at h
    · split at h
      · cases h
      · next heq =>
        split at h
        · exact hsame h
        · obtain ⟨last, lo, hi, hitem, -⟩ := rangeTo?_eq_some.mp h
          exact (suffix_of_skip_cons heq (readClassItem_suffix hitem)).trans (List.suffix_cons _ _)
    · exact hsame h

theorem readRange_suffix {c : Char} {set : ClassSet}
    (h : readRange b (c :: cs) = some (set, rest)) : rest <:+ cs := by
  rw [readRange_eq] at h
  obtain ⟨⟨first, left⟩, hitem, h⟩ := Option.bind_eq_some_iff.mp h
  exact ((rangeAfter?_suffix h).trans (skip_suffix b left)).trans (readClassItem_suffix hitem)

theorem readDashes_suffix {fuel : Nat} {items items' : List ClassSet}
    (h : readDashes b fuel items cs = some (items', rest)) : rest <:+ cs := by
  induction fuel generalizing items cs with
  | zero => cases h
  | succ fuel ih =>
    cases cs with
    | nil => cases h
    | cons c cs =>
      rw [readDashes] at h
      split at h
      · exact suffix_cons_of_skip (ih h)
      · cases h
        exact List.suffix_refl _

/-- Whether a class is negated, by its start, and the rest of it. -/
def classSign (b : Bool) : List Char → Bool × List Char
  | [] => (false, [])
  | c :: cs => if c = '^' then (true, skip b cs) else (false, c :: cs)

/-- The items of a class after its dashes, of which a bracket may be one. -/
def classStart? (b negated : Bool) : List ClassSet → List Char →
    Option ((Bool × List ClassSet) × List Char)
  | [], ']' :: cs =>
    if (skip b cs).isEmpty then none else some ((negated, [.literal ']' false]), skip b cs)
  | items, cs => some ((negated, items), cs)

theorem readClassOpen_eq (cs : List Char) :
    readClassOpen b cs =
      (readDashes b ((classSign b (skip b cs)).2.length + 1) [] (classSign b (skip b cs)).2).bind
        fun r => classStart? b (classSign b (skip b cs)).1 r.1 r.2 := by
  have hstart {negated : Bool} {o : Option (List ClassSet × List Char)} :
      (o.bind fun r => match r.1, r.2 with
        | [], ']' :: rest =>
          if (skip b rest).isEmpty then none
          else some ((negated, [.literal ']' false]), skip b rest)
        | items, cs => some ((negated, items), cs)) =
      o.bind fun r => classStart? b negated r.1 r.2 := rfl
  rw [readClassOpen]
  cases skip b cs with
  | nil => exact hstart
  | cons c cs =>
    by_cases hc : c = '^'
    · subst hc
      exact hstart
    · simp only [classSign, if_neg hc]
      split
      · next heq =>
        cases heq
        exact absurd rfl hc
      · exact hstart

theorem classSign_suffix (cs : List Char) : (classSign b cs).2 <:+ cs := by
  cases cs with
  | nil => exact List.suffix_refl _
  | cons c cs =>
    rw [classSign]
    split
    · exact suffix_cons_of_skip (List.suffix_refl _)
    · exact List.suffix_refl _

section

variable {negated : Bool} {items : List ClassSet} {start : Bool × List ClassSet}

theorem classStart?_bracket : classStart? b negated [] (']' :: cs) =
    if (skip b cs).isEmpty then none else some ((negated, [.literal ']' false]), skip b cs) := rfl

theorem classStart?_plain (h : ¬(items = [] ∧ cs.head? = some ']')) :
    classStart? b negated items cs = some ((negated, items), cs) := by
  unfold classStart?
  split
  · exact absurd ⟨rfl, rfl⟩ h
  · rfl

theorem classStart?_suffix (h : classStart? b negated items cs = some (start, rest)) :
    rest <:+ cs := by
  by_cases hbracket : items = [] ∧ cs.head? = some ']'
  · obtain ⟨rfl, hhead⟩ := hbracket
    obtain ⟨cs, rfl⟩ := List.head?_eq_some_iff.mp hhead
    rw [classStart?_bracket] at h
    split at h
    · cases h
    · cases h
      exact suffix_cons_of_skip (List.suffix_refl _)
  · rw [classStart?_plain hbracket] at h
    cases h
    exact List.suffix_refl _

end

theorem readClassOpen_suffix {start : Bool × List ClassSet}
    (h : readClassOpen b cs = some (start, rest)) : rest <:+ cs := by
  rw [readClassOpen_eq] at h
  obtain ⟨⟨items, left⟩, hdashes, h⟩ := Option.bind_eq_some_iff.mp h
  exact (((classStart?_suffix h).trans (readDashes_suffix hdashes)).trans (classSign_suffix _)).trans
    (skip_suffix b cs)

/-! ### The content of a class -/

/-- The operation that a doubled character stands for between the sets of a class. -/
def classOp? (c : Char) : Option ClassOp :=
  if c = '&' then some .intersection
  else if c = '-' then some .difference
  else if c = '~' then some .symmetricDifference
  else none

/-- An item of a class begins with a character, and not something else. -/
def BeginsItem (c : Char) (cs : List Char) : Prop :=
  c ≠ '[' ∧ c ≠ ']' ∧ (classOp? c ≠ none → cs.head? ≠ some c)

section

variable {fuel : Nat} {pending : Option (ClassOp × ClassSet)} {items : List ClassSet}

theorem readClassBody_nil (hskip : skip b cs = []) :
    readClassBody b (fuel + 1) pending items cs = none := by
  rw [readClassBody, hskip]

theorem readClassBody_open (hskip : skip b cs = '[' :: rest) :
    readClassBody b (fuel + 1) pending items cs =
      match asciiClass? rest with
      | some (set, rest) => readClassBody b fuel pending (set :: items) rest
      | none =>
        (readClassOpen b rest).bind fun start =>
          (readClassBody b fuel none start.1.2 start.2).bind fun inner =>
            readClassBody b fuel pending (.bracketed inner.1 start.1.1 :: items) inner.2 := by
  rw [readClassBody, hskip]
  rfl

theorem readClassBody_close (hskip : skip b cs = ']' :: rest) :
    readClassBody b (fuel + 1) pending items cs =
      some (applyPending pending (unionOf items), rest) := by
  rw [readClassBody, hskip]
  rfl

theorem readClassBody_op {c : Char} {op : ClassOp} (hop : classOp? c = some op)
    (hskip : skip b cs = c :: c :: rest) :
    readClassBody b (fuel + 1) pending items cs =
      readClassBody b fuel (some (op, applyPending pending (unionOf items))) [] rest := by
  rw [classOp?] at hop
  split at hop
  · next hc =>
    subst hc
    cases hop
    rw [readClassBody, hskip]
    rfl
  · split at hop
    · next hc =>
      subst hc
      cases hop
      rw [readClassBody, hskip]
      rfl
    · split at hop
      · next hc =>
        subst hc
        cases hop
        rw [readClassBody, hskip]
        rfl
      · cases hop

theorem readClassBody_begins {c : Char} (hc : BeginsItem c rest) (hskip : skip b cs = c :: rest) :
    readClassBody b (fuel + 1) pending items cs =
      (readRange b (c :: rest)).bind fun r => readClassBody b fuel pending (r.1 :: items) r.2 := by
  obtain ⟨hopen, hclose, hop⟩ := hc
  rw [readClassBody, hskip]
  -- The cases come in the order of the reader, and only the last one is left.
  split
  · next heq => cases heq
  · next heq =>
    cases heq
    exact absurd rfl hopen
  · next heq =>
    cases heq
    exact absurd rfl hclose
  · next heq =>
    cases heq
    exact absurd rfl (hop (by decide))
  · next heq =>
    cases heq
    exact absurd rfl (hop (by decide))
  · next heq =>
    cases heq
    exact absurd rfl (hop (by decide))
  · next heq =>
    cases heq
    rfl

/-- What may come next in a class. -/
theorem exists_classStep (c : Char) (cs : List Char) :
    c = '[' ∨ c = ']' ∨ (∃ op cs', classOp? c = some op ∧ cs = c :: cs') ∨ BeginsItem c cs := by
  by_cases hopen : c = '['
  · exact .inl hopen
  by_cases hclose : c = ']'
  · exact .inr (.inl hclose)
  by_cases hop : classOp? c ≠ none ∧ cs.head? = some c
  · obtain ⟨hop, hhead⟩ := hop
    obtain ⟨op, hop⟩ := Option.ne_none_iff_exists'.mp hop
    obtain ⟨cs', rfl⟩ := List.head?_eq_some_iff.mp hhead
    exact .inr (.inr (.inl ⟨op, cs', hop, rfl⟩))
  · exact .inr (.inr (.inr ⟨hopen, hclose, fun h hhead => hop ⟨h, hhead⟩⟩))

end

theorem readClassBody_suffix {fuel : Nat} {pending : Option (ClassOp × ClassSet)}
    {items : List ClassSet} {set : ClassSet}
    (h : readClassBody b fuel pending items cs = some (set, rest)) : rest <:+ cs := by
  induction fuel generalizing pending items cs set rest with
  | zero => cases h
  | succ fuel ih =>
    cases hskip : skip b cs with
    | nil =>
      rw [readClassBody_nil hskip] at h
      cases h
    | cons c ds =>
      refine suffix_of_skip_cons hskip ?_
      rcases exists_classStep c ds with rfl | rfl | ⟨op, ds, hop, rfl⟩ | hitem
      · rw [readClassBody_open hskip] at h
        cases hascii : asciiClass? ds with
        | some named =>
          rw [hascii] at h
          exact (ih h).trans (asciiClass?_suffix hascii)
        | none =>
          rw [hascii] at h
          obtain ⟨start, hopen, h⟩ := Option.bind_eq_some_iff.mp h
          obtain ⟨inner, hinner, h⟩ := Option.bind_eq_some_iff.mp h
          exact ((ih h).trans (ih hinner)).trans (readClassOpen_suffix hopen)
      · rw [readClassBody_close hskip] at h
        cases h
        exact List.suffix_refl _
      · rw [readClassBody_op hop hskip] at h
        exact (ih h).trans (List.suffix_cons _ _)
      · rw [readClassBody_begins hitem hskip] at h
        obtain ⟨r, hrange, h⟩ := Option.bind_eq_some_iff.mp h
        exact (ih h).trans (readRange_suffix hrange)

theorem readClass_suffix {a : Ast} (h : readClass b cs = some (a, rest)) : rest <:+ cs := by
  obtain ⟨⟨start, inside⟩, hopen, h⟩ := Option.bind_eq_some_iff.mp h
  obtain ⟨⟨set, left⟩, hbody, h⟩ := Option.bind_eq_some_iff.mp h
  cases h
  exact (readClassBody_suffix hbody).trans (readClassOpen_suffix hopen)

/-! ## Repetition -/

theorem readCount_suffix {n : Nat} (h : readCount cs = some (n, rest)) : rest <:+ cs := by
  simp only [readCount] at h
  split at h
  · cases h
  · cases h
    exact ((List.dropWhile_suffix _).trans (List.dropWhile_suffix _)).trans
      (List.dropWhile_suffix _)

/-- The bounds of a repetition of which the second one is next, with the brace behind it. -/
def boundsTo? (min : Nat) (cs : List Char) : Option ((Nat × Option Nat) × List Char) :=
  (readCount cs).bind fun r =>
    if r.2.head? = some '\x7d' ∧ min ≤ r.1 then some ((min, some r.1), r.2.tail) else none

theorem boundsTo?_eq_some {min : Nat} {bounds : Nat × Option Nat} :
    boundsTo? min cs = some (bounds, rest) ↔
      ∃ max, readCount cs = some (max, '\x7d' :: rest) ∧ min ≤ max ∧ bounds = (min, some max) := by
  simp only [boundsTo?, Option.bind_eq_some_iff, Option.ite_none_right_eq_some, Option.some.injEq,
    Prod.mk.injEq, Prod.exists]
  constructor
  · rintro ⟨max, left, hcount, ⟨hhead, hle⟩, rfl, rfl⟩
    obtain ⟨left, rfl⟩ := List.head?_eq_some_iff.mp hhead
    exact ⟨max, hcount, hle, rfl⟩
  · rintro ⟨max, hcount, hle, rfl⟩
    exact ⟨max, _, hcount, ⟨rfl, hle⟩, rfl, rfl⟩

/-- The bounds of a repetition after the first of them. -/
def boundsAfter? (b : Bool) (min : Nat) : List Char → Option ((Nat × Option Nat) × List Char)
  | [] => none
  | c :: cs =>
    if c = '\x7d' then some ((min, some min), cs)
    else if c = ',' then
      match skip b cs with
      | [] => none
      | d :: ds =>
        if d = '\x7d' then some ((min, none), ds) else boundsTo? min (d :: ds)
    else none

theorem readBounds_eq (cs : List Char) :
    readBounds b cs = (readCount (skip b cs)).bind fun r => boundsAfter? b r.1 r.2 := by
  rw [readBounds]
  refine congrArg (Option.bind _) (funext fun r => ?_)
  obtain ⟨min, rest⟩ := r
  dsimp only
  cases rest with
  | nil => rfl
  | cons c cs =>
    by_cases hc : c = '\x7d'
    · subst hc
      rfl
    · by_cases hc' : c = ','
      · subst hc'
        simp only [boundsAfter?, hc, if_false, if_true]
        cases skip b cs with
        | nil => rfl
        | cons d ds =>
          by_cases hd : d = '\x7d'
          · subst hd
            rfl
          · simp only [hd, if_false]
            split
            · next heq =>
              cases heq
              exact absurd rfl hd
            · refine congrArg (Option.bind _) (funext fun r => ?_)
              obtain ⟨max, _ | ⟨e, es⟩⟩ := r
              · rfl
              · by_cases he : e = '\x7d' <;> simp [he]
      · simp [boundsAfter?, hc, hc']

theorem boundsAfter?_suffix {min : Nat} {bounds : Nat × Option Nat}
    (h : boundsAfter? b min cs = some (bounds, rest)) : rest <:+ cs := by
  cases cs with
  | nil => cases h
  | cons c cs =>
    rw [boundsAfter?] at h
    split at h
    · cases h
      exact List.suffix_cons _ _
    · split at h
      · refine List.IsSuffix.trans ?_ (List.suffix_cons c cs)
        split at h
        · cases h
        · next heq =>
          split at h
          · cases h
            exact suffix_of_skip_cons heq (List.suffix_refl _)
          · obtain ⟨max, hcount, -⟩ := boundsTo?_eq_some.mp h
            exact (List.suffix_cons _ _).trans
              ((readCount_suffix hcount).trans (heq ▸ skip_suffix b cs))
      · cases h

theorem readBounds_suffix {bounds : Nat × Option Nat}
    (h : readBounds b cs = some (bounds, rest)) : rest <:+ cs := by
  rw [readBounds_eq] at h
  obtain ⟨⟨min, left⟩, hcount, h⟩ := Option.bind_eq_some_iff.mp h
  exact ((boundsAfter?_suffix h).trans (readCount_suffix hcount)).trans (skip_suffix b cs)

theorem readGreed_suffix (cs : List Char) : (readGreed cs).2 <:+ cs := by
  unfold readGreed
  split
  · exact List.suffix_cons _ _
  · exact List.suffix_refl _

theorem repeated?_eq (d : GroupDraft) (min : Nat) (max : Option Nat) (cs : List Char) :
    d.repeated? min max cs = (repeatLast min max (readGreed cs).1 d.parts).bind fun parts =>
      some ({ d with parts }, (readGreed cs).2) := rfl

theorem repeated?_suffix {d d' : GroupDraft} {min : Nat} {max : Option Nat}
    (h : d.repeated? min max cs = some (d', rest)) : rest <:+ cs := by
  rw [repeated?_eq] at h
  obtain ⟨parts, -, h⟩ := Option.bind_eq_some_iff.mp h
  cases h
  exact readGreed_suffix cs

/-! ## Groups -/

theorem readFlags_suffix {on dangling : Bool} {done flags : FlagSet}
    (h : readFlags on dangling done cs = some (flags, rest)) : rest <:+ cs := by
  induction cs generalizing on dangling done with
  | nil => cases h
  | cons c cs ih =>
    rw [readFlags] at h
    split at h
    · split at h
      · cases h
      · cases h
        exact List.suffix_refl _
    · refine List.IsSuffix.trans ?_ (List.suffix_cons c cs)
      split at h
      · split at h
        · exact ih h
        · cases h
      · obtain ⟨f, -, h⟩ := Option.bind_eq_some_iff.mp h
        split at h
        · cases h
        · exact ih h

theorem readName_suffix {done name : List Char} (h : readName done cs = some (name, rest)) :
    rest <:+ cs := by
  induction cs generalizing done with
  | nil => cases h
  | cons c cs ih =>
    refine List.IsSuffix.trans ?_ (List.suffix_cons c cs)
    rw [readName] at h
    split at h
    · split at h
      · cases h
      · cases h
        exact List.suffix_refl _
    · split at h
      · exact ih h
      · cases h

/-- The opening of a group with flags, or flags on their own. -/
def flagsOpen? (cs : List Char) : Option (GroupOpen × List Char) :=
  match readFlags true false [] cs with
  | some (flags, ')' :: rest) => if flags.isEmpty then none else some (.setFlags flags, rest)
  | some (flags, ':' :: rest) => some (.flagged flags, rest)
  | _ => none

theorem flagsOpen?_suffix {start : GroupOpen} (h : flagsOpen? cs = some (start, rest)) :
    rest <:+ cs := by
  rw [flagsOpen?] at h
  split at h
  · next hflags =>
    split at h
    · cases h
    · cases h
      exact (List.suffix_cons _ _).trans (readFlags_suffix hflags)
  · next hflags =>
    cases h
    exact (List.suffix_cons _ _).trans (readFlags_suffix hflags)
  · cases h

/-- The opening of a group after a question mark. -/
def specialOpen? : List Char → Option (GroupOpen × List Char)
  | [] => none
  | c :: cs =>
    if c = '=' || c = '!' then none
    else if c = '<' then
      if cs.head? = some '=' ∨ cs.head? = some '!' then none
      else (readName [] cs).map fun r => (.capture r.1, r.2)
    else if c = 'P' then
      if cs.head? = some '<' then (readName [] cs.tail).map fun r => (.capture r.1, r.2) else none
    else flagsOpen? (c :: cs)

theorem specialOpen?_suffix {start : GroupOpen} (h : specialOpen? cs = some (start, rest)) :
    rest <:+ cs := by
  have hname {text : List Char} (h : (readName [] text).map (fun r => (GroupOpen.capture r.1, r.2)) =
      some (start, rest)) : rest <:+ text := by
    obtain ⟨⟨name, left⟩, hname, h⟩ := Option.map_eq_some_iff.mp h
    cases h
    exact readName_suffix hname
  cases cs with
  | nil => cases h
  | cons c cs =>
    rw [specialOpen?] at h
    split at h
    · cases h
    · split at h
      · split at h
        · cases h
        · exact (hname h).trans (List.suffix_cons _ _)
      · split at h
        · split at h
          · exact ((hname h).trans (List.tail_suffix _)).trans (List.suffix_cons _ _)
          · cases h
        · exact flagsOpen?_suffix h

/-- The opening of a group, after blanks. -/
def groupOpen? : List Char → Option (GroupOpen × List Char)
  | [] => some (.capture none, [])
  | c :: cs => if c = '?' then specialOpen? cs else some (.capture none, c :: cs)

theorem readGroupOpen_eq (cs : List Char) : readGroupOpen b cs = groupOpen? (skip b cs) := by
  unfold readGroupOpen
  split
  · next heq => rw [heq]; rfl
  · next heq => rw [heq]; rfl
  · next heq => rw [heq]; rfl
  · next heq => rw [heq]; rfl
  · next heq => rw [heq]; rfl
  · next rest hequal hexclaim heq =>
    rw [heq]
    have hhead : ¬(rest.head? = some '=' ∨ rest.head? = some '!') := by
      rintro (hhead | hhead)
      all_goals
        obtain ⟨cs', rfl⟩ := List.head?_eq_some_iff.mp hhead
      · exact hequal _ rfl
      · exact hexclaim _ rfl
    simp [groupOpen?, specialOpen?, hhead]
  · next rest hequal hexclaim _ _ hnamed hname heq =>
    rw [heq]
    change flagsOpen? rest = specialOpen? rest
    cases rest with
    | nil => rfl
    | cons c rest =>
      have hfirst : (c = '=' || c = '!') = false := by
        rw [Bool.or_eq_false_iff, decide_eq_false_iff_not, decide_eq_false_iff_not]
        exact ⟨fun hc => hequal _ (by rw [hc]), fun hc => hexclaim _ (by rw [hc])⟩
      have hangle : c ≠ '<' := fun hc => hname rest (by rw [hc])
      by_cases hc : c = 'P'
      · subst hc
        have hhead : rest.head? ≠ some '<' := by
          intro hhead
          obtain ⟨cs', rfl⟩ := List.head?_eq_some_iff.mp hhead
          exact hnamed _ rfl
        -- No flag is named by that letter.
        rw [specialOpen?, if_neg (by decide), if_neg hangle, if_pos rfl, if_neg hhead]
        rfl
      · rw [specialOpen?, hfirst, if_neg (by decide), if_neg hangle, if_neg hc]
  · next hquestion =>
    cases hskip : skip b cs with
    | nil => rfl
    | cons c rest =>
      have hc : c ≠ '?' := fun hc => hquestion rest (by rw [hskip, hc])
      rw [groupOpen?, if_neg hc]

theorem readGroupOpen_suffix {start : GroupOpen} (h : readGroupOpen b cs = some (start, rest)) :
    rest <:+ cs := by
  rw [readGroupOpen_eq] at h
  cases hskip : skip b cs with
  | nil =>
    rw [hskip] at h
    cases h
    exact List.nil_suffix
  | cons c ds =>
    rw [hskip, groupOpen?] at h
    split at h
    · exact suffix_of_skip_cons hskip (specialOpen?_suffix h)
    · cases h
      exact hskip ▸ skip_suffix b cs

/-! ### Items -/

/-- Read an item of a group that is no group itself, or the bar that ends an alternative, by its
first character. -/
def readItem? (d : GroupDraft) (c : Char) (cs : List Char) : Option (GroupDraft × List Char) :=
  if c = '|' then some ({ d with branches := concatOf d.parts :: d.branches, parts := [] }, cs)
  else if c = '[' then (readClass d.blanks cs).map fun r => (d.push r.1, r.2)
  else if c = '?' then d.repeated? 0 (some 1) cs
  else if c = '*' then d.repeated? 0 none cs
  else if c = '+' then d.repeated? 1 none cs
  else if c = '\x7b' then (readBounds d.blanks cs).bind fun r => d.repeated? r.1.1 r.1.2 r.2
  else if c = '\\' then (readEscape d.blanks cs).map fun r => (d.push r.1.ast, r.2)
  else if c = '.' then some (d.push .dot, cs)
  else if c = '^' then some (d.push (.anchor .caret), cs)
  else if c = '$' then some (d.push (.anchor .dollar), cs)
  else some (d.push (.literal c false), cs)

/-- How an item of a group is read, after its first character. -/
inductive ItemReader (d : GroupDraft) : (List Char → Option (GroupDraft × List Char)) → Prop where
  /-- The character is all there is to read. -/
  | char (d' : GroupDraft) : ItemReader d fun cs => some (d', cs)
  /-- A class follows. -/
  | inClass : ItemReader d fun cs => (readClass d.blanks cs).map fun r => (d.push r.1, r.2)
  /-- The last item is repeated. -/
  | repetition (min : Nat) (max : Option Nat) : ItemReader d (d.repeated? min max)
  /-- The last item is repeated as often as the bounds say that follow. -/
  | counted : ItemReader d fun cs =>
      (readBounds d.blanks cs).bind fun r => d.repeated? r.1.1 r.1.2 r.2
  /-- An escape follows. -/
  | escape : ItemReader d fun cs => (readEscape d.blanks cs).map fun r => (d.push r.1.ast, r.2)

theorem ItemReader.ite {d : GroupDraft} {p : Prop} [Decidable p]
    {r r' : List Char → Option (GroupDraft × List Char)} (h : ItemReader d r)
    (h' : ItemReader d r') : ItemReader d fun cs => if p then r cs else r' cs := by
  by_cases hp : p
  · simpa only [if_pos hp] using h
  · simpa only [if_neg hp] using h'

theorem itemReader (d : GroupDraft) (c : Char) : ItemReader d (readItem? d c) := by
  unfold readItem?
  repeat' refine .ite ?_ ?_
  all_goals first
    | exact .char _
    | exact .inClass
    | exact .repetition _ _
    | exact .counted
    | exact .escape

theorem ItemReader.suffix {d d' : GroupDraft} {read : List Char → Option (GroupDraft × List Char)}
    (hreader : ItemReader d read) (h : read cs = some (d', rest)) : rest <:+ cs := by
  cases hreader with
  | char d' =>
    cases h
    exact List.suffix_refl _
  | inClass =>
    obtain ⟨⟨a, left⟩, hclass, h⟩ := Option.map_eq_some_iff.mp h
    cases h
    exact readClass_suffix hclass
  | repetition min max => exact repeated?_suffix h
  | counted =>
    obtain ⟨⟨bounds, left⟩, hbounds, h⟩ := Option.bind_eq_some_iff.mp h
    exact (repeated?_suffix h).trans (readBounds_suffix hbounds)
  | escape =>
    obtain ⟨⟨p, left⟩, hescape, h⟩ := Option.map_eq_some_iff.mp h
    cases h
    exact readEscape_suffix hescape

/-! ### Content -/

/-- A group that ends here. -/
def finished (d : GroupDraft) (closed : Bool) : GroupRead :=
  ⟨alternationOf (concatOf d.parts :: d.branches), d.names, closed⟩

section

variable {n : Nat} {d : GroupDraft}

theorem readGroup_end (hskip : skip d.blanks cs = []) :
    readGroup (n + 1) d cs = some (finished d false, []) := by
  rw [readGroup, hskip]
  rfl

theorem readGroup_closed (hskip : skip d.blanks cs = ')' :: rest) :
    readGroup (n + 1) d cs = some (finished d true, rest) := by
  rw [readGroup, hskip]
  rfl

theorem readGroup_item {c : Char} (hopen : c ≠ '(') (hclose : c ≠ ')')
    (hskip : skip d.blanks cs = c :: rest) :
    readGroup (n + 1) d cs = (readItem? d c rest).bind fun r => readGroup n r.1 r.2 := by
  rw [readGroup, hskip]
  split
  · next heq => cases heq
  · next heq =>
    cases heq
    exact absurd rfl hopen
  · next heq =>
    cases heq
    exact absurd rfl hclose
  all_goals try (next heq => cases heq; rfl)
  · next heq =>
    cases heq
    change _ = ((readClass d.blanks rest).map fun r => (d.push r.1, r.2)).bind _
    cases readClass d.blanks rest <;> rfl
  · next heq =>
    cases heq
    change _ = ((readBounds d.blanks rest).bind fun r => d.repeated? r.1.1 r.1.2 r.2).bind _
    cases readBounds d.blanks rest <;> rfl
  · next heq =>
    cases heq
    change _ = ((readEscape d.blanks rest).map fun r => (d.push r.1.ast, r.2)).bind _
    cases readEscape d.blanks rest <;> rfl
  · next hbar hbracket hquestion hstar hplus hbrace hslash hdot hcaret hdollar heq =>
    cases heq
    rw [readItem?, if_neg hbar, if_neg hbracket, if_neg hquestion, if_neg hstar, if_neg hplus,
      if_neg hbrace, if_neg hslash, if_neg hdot, if_neg hcaret, if_neg hdollar]
    rfl

/-- The content of a group inside another one, and what follows it there. -/
def groupBody (n : Nat) (d inner : GroupDraft) (flags : FlagSet) (cs : List Char) :
    Option (GroupRead × List Char) :=
  match readGroup n inner cs with
  | some (⟨body, names, true⟩, cs) => readGroup n { d.push (.group flags body) with names } cs
  | _ => none

/-- What follows the opening of a group. -/
def groupAfter (n : Nat) (d : GroupDraft) : GroupOpen → List Char → Option (GroupRead × List Char)
  | .setFlags flags, cs =>
    readGroup n { d.push (.flags flags) with blanks := blanksAfter d.blanks flags } cs
  | .flagged flags, cs => groupBody n d ⟨blanksAfter d.blanks flags, d.names, [], []⟩ flags cs
  | .capture name, cs =>
    if name.any d.names.contains then none
    else groupBody n d ⟨d.blanks, name.toList ++ d.names, [], []⟩ [] cs

theorem readGroup_opened (hskip : skip d.blanks cs = '(' :: rest) :
    readGroup (n + 1) d cs =
      (readGroupOpen d.blanks rest).bind fun r => groupAfter n d r.1 r.2 := by
  rw [readGroup, hskip]
  cases hopen : readGroupOpen d.blanks rest with
  | none => simp only [hopen]; rfl
  | some r =>
    obtain ⟨start, rest⟩ := r
    simp only [hopen, Option.bind_some]
    cases start <;> rfl

end

theorem readGroup_congr {n : Nat} {d : GroupDraft} (hskip : skip d.blanks cs = skip d.blanks cs') :
    readGroup n d cs = readGroup n d cs' := by
  cases n with
  | zero => rfl
  | succ n => rw [readGroup, readGroup, hskip]

theorem groupAfter_suffix {n : Nat} {d : GroupDraft} {start : GroupOpen} {read : GroupRead}
    (ih : ∀ {d : GroupDraft} {cs : List Char} {read : GroupRead} {rest : List Char},
      readGroup n d cs = some (read, rest) → rest <:+ cs)
    (h : groupAfter n d start cs = some (read, rest)) : rest <:+ cs := by
  have hbody {inner : GroupDraft} {flags : FlagSet}
      (h : groupBody n d inner flags cs = some (read, rest)) : rest <:+ cs := by
    rw [groupBody] at h
    split at h
    · next hinner => exact (ih h).trans (ih hinner)
    · cases h
  cases start with
  | setFlags flags => exact ih h
  | flagged flags => exact hbody h
  | capture name =>
    rw [groupAfter] at h
    split at h
    · cases h
    · exact hbody h

theorem readGroup_suffix {n : Nat} {d : GroupDraft} {read : GroupRead}
    (h : readGroup n d cs = some (read, rest)) : rest <:+ cs := by
  induction n generalizing d cs read rest with
  | zero => cases h
  | succ n ih =>
    cases hskip : skip d.blanks cs with
    | nil =>
      rw [readGroup_end hskip] at h
      cases h
      exact List.nil_suffix
    | cons c ds =>
      refine suffix_of_skip_cons hskip ?_
      by_cases hclose : c = ')'
      · subst hclose
        rw [readGroup_closed hskip] at h
        cases h
        exact List.suffix_refl _
      · by_cases hopen : c = '('
        · subst hopen
          rw [readGroup_opened hskip] at h
          obtain ⟨⟨start, left⟩, hstart, h⟩ := Option.bind_eq_some_iff.mp h
          exact (groupAfter_suffix ih h).trans (readGroupOpen_suffix hstart)
        · rw [readGroup_item hopen hclose hskip] at h
          obtain ⟨⟨d', left⟩, hitem, h⟩ := Option.bind_eq_some_iff.mp h
          exact (ih h).trans ((itemReader d c).suffix hitem)

end Regex

end PegMachine
