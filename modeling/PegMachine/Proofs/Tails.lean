import PegMachine.Proofs.Readers

/-!
# Patterns with a tail

A pattern is put into a larger one by writing a tail behind it: a closing parenthesis, or an anchor
for the end. What can be read of the text alone is read in the same way where the tail is there as
well. The tail is what is left then, unless the text ends in a comment, which reaches over it.
-/

namespace PegMachine

namespace Regex

/-- What is written behind a pattern. -/
inductive IsTail : List Char → Prop where
  /-- The end of a group. -/
  | close : IsTail [')']
  /-- The end of the text. -/
  | endText : IsTail ['\\', 'z']

/-- What a reader leaves of a text and of the text with a tail: the tail is left in the end, or
there was nothing left and a comment reaches over the tail. -/
def Trails (tail rest rest' : List Char) : Prop :=
  rest' = rest ++ tail ∨ (rest = [] ∧ rest' = [])

variable {tail cs cs' rest : List Char} {b : Bool}

theorem Trails.append (cs tail : List Char) : Trails tail cs (cs ++ tail) := .inl rfl

theorem Trails.nil : Trails tail [] [] := .inr ⟨rfl, rfl⟩

theorem trails_cons {c : Char} :
    Trails tail (c :: rest) cs' ↔ cs' = c :: (rest ++ tail) := by
  simp [Trails]

/-! ## Blanks -/

theorem skipBlanks_comment (h : IsTail tail) : skipBlanks true tail = [] := by
  cases h <;> rfl

theorem skip_tail (h : IsTail tail) : skip b tail = tail := by
  have hclose : Unicode.isWhiteSpace ')' = false := by decide +kernel
  have hslash : Unicode.isWhiteSpace '\\' = false := by decide +kernel
  cases h <;> cases b <;> simp [skip, skipBlanks, hclose, hslash]

theorem Trails.skipBlanks (h : IsTail tail) (inComment : Bool) (cs : List Char) :
    Trails tail (skipBlanks inComment cs) (skipBlanks inComment (cs ++ tail)) := by
  induction cs generalizing inComment with
  | nil =>
    cases inComment with
    | false => exact .inl (skip_tail (b := true) h)
    | true => exact .inr ⟨rfl, skipBlanks_comment h⟩
  | cons c cs ih =>
    rw [List.cons_append]
    simp only [Regex.skipBlanks]
    split
    · exact ih _
    · split
      · exact ih _
      · split
        · exact ih _
        · exact .append _ _

theorem Trails.skip (h : IsTail tail) (htr : Trails tail cs cs') :
    Trails tail (skip b cs) (skip b cs') := by
  rcases htr with rfl | ⟨rfl, rfl⟩
  · cases b with
    | false => exact .append _ _
    | true => exact .skipBlanks h false cs
  · cases b <;> exact .nil

/-- What is left after blanks, if it is not nothing. -/
theorem Trails.skip_cons (h : IsTail tail) (htr : Trails tail cs cs') {c : Char}
    (hskip : Regex.skip b cs = c :: rest) :
    Regex.skip b cs' = c :: (rest ++ tail) := by
  have hboth := htr.skip (b := b) h
  rw [hskip] at hboth
  exact trails_cons.mp hboth

/-! ## Numbers and names -/

theorem readHexDigits_trails (h : IsTail tail) (htr : Trails tail cs cs') {n value m : Nat}
    (hread : readHexDigits b n value cs = some (m, rest)) :
    ∃ rest', readHexDigits b n value cs' = some (m, rest') ∧ Trails tail rest rest' := by
  induction n generalizing value cs cs' with
  | zero =>
    cases hread
    exact ⟨cs', rfl, htr⟩
  | succ n ih =>
    cases cs with
    | nil => cases hread
    | cons c cs =>
      obtain rfl := trails_cons.mp htr
      rw [readHexDigits_cons] at hread ⊢
      obtain ⟨d, hd, hread⟩ := Option.bind_eq_some_iff.mp hread
      have hrest := (Trails.append cs tail).skip (b := b) h
      split at hread
      · cases hread
      · next hmore =>
        -- With the tail, digits are missing only if they are missing without.
        have hmore' : ¬((skip b (cs ++ tail)).isEmpty && n ≠ 0) = true := by
          rcases hrest with heq | ⟨hnil, hnil'⟩
          · rw [heq]
            cases h <;> simp
          · rwa [hnil', ← hnil]
        rw [hd, Option.bind_some, if_neg hmore']
        exact ih hrest hread

theorem readHexBraced_trails (h : IsTail tail) {fuel fuel' : Nat} (hle : fuel ≤ fuel')
    (htr : Trails tail cs cs') {value : Option Nat} {m : Nat}
    (hread : readHexBraced b fuel value cs = some (m, rest)) :
    readHexBraced b fuel' value cs' = some (m, rest ++ tail) := by
  induction fuel generalizing fuel' value cs cs' with
  | zero => cases hread
  | succ fuel ih =>
    obtain ⟨fuel', rfl⟩ := Nat.exists_eq_add_of_le' hle
    cases cs with
    | nil => cases hread
    | cons c cs =>
      obtain rfl := trails_cons.mp htr
      rw [← Nat.add_assoc, readHexBraced]
      rw [readHexBraced] at hread
      split at hread
      · next hclose =>
        obtain ⟨n, rfl, hn⟩ := Option.map_eq_some_iff.mp hread
        cases hn
        rw [if_pos hclose]
        rfl
      · next hopen =>
        obtain ⟨d, hd, hread⟩ := Option.bind_eq_some_iff.mp hread
        rw [if_neg hopen, hd]
        exact ih (Nat.le_add_left _ _) ((Trails.append cs tail).skip h) hread

theorem readBraced_trails (h : IsTail tail) {fuel fuel' : Nat} (hle : fuel ≤ fuel')
    (htr : Trails tail cs cs') {done text : List Char}
    (hread : readBraced b fuel done cs = some (text, rest)) :
    readBraced b fuel' done cs' = some (text, rest ++ tail) := by
  induction fuel generalizing fuel' done cs cs' with
  | zero => cases hread
  | succ fuel ih =>
    obtain ⟨fuel', rfl⟩ := Nat.exists_eq_add_of_le' hle
    cases cs with
    | nil => cases hread
    | cons c cs =>
      obtain rfl := trails_cons.mp htr
      rw [← Nat.add_assoc, readBraced]
      rw [readBraced] at hread
      split at hread
      · next hclose =>
        cases hread
        rw [if_pos hclose]
      · next hopen =>
        rw [if_neg hopen]
        exact ih (Nat.le_add_left _ _) ((Trails.append cs tail).skip h) hread

theorem readBoundaryName_trails (h : IsTail tail) {fuel fuel' : Nat} (hle : fuel ≤ fuel')
    (htr : Trails tail cs cs') {done text : List Char}
    (hread : readBoundaryName b fuel done cs = some (text, rest)) :
    readBoundaryName b fuel' done cs' = some (text, rest ++ tail) := by
  induction fuel generalizing fuel' done cs cs' with
  | zero => cases hread
  | succ fuel ih =>
    obtain ⟨fuel', rfl⟩ := Nat.exists_eq_add_of_le' hle
    cases cs with
    | nil => cases hread
    | cons c cs =>
      obtain rfl := trails_cons.mp htr
      rw [← Nat.add_assoc, readBoundaryName]
      rw [readBoundaryName] at hread
      split at hread
      · next hclose =>
        cases hread
        rw [if_pos hclose]
      · next hopen =>
        split at hread
        · next hchar =>
          rw [if_neg hopen, if_pos hchar]
          exact ih (Nat.le_add_left _ _) ((Trails.append cs tail).skip h) hread
        · cases hread

/-! ## Escapes -/

theorem readHex_trails (h : IsTail tail) (htr : Trails tail cs cs') {digits : Nat} {p : Primitive}
    (hread : readHex b digits cs = some (p, rest)) :
    ∃ rest', readHex b digits cs' = some (p, rest') ∧ Trails tail rest rest' := by
  rw [readHex_eq] at hread
  obtain ⟨⟨n, left⟩, hn, hread⟩ := Option.bind_eq_some_iff.mp hread
  obtain ⟨c, hc, hread⟩ := Option.map_eq_some_iff.mp hread
  cases hread
  obtain ⟨rest', hn', hrest⟩ : ∃ rest', hexNumber? b digits (skip b cs') = some (n, rest') ∧
      Trails tail left rest' := by
    cases hskip : skip b cs with
    | nil =>
      rw [hskip] at hn
      cases hn
    | cons d ds =>
      rw [hskip, hexNumber?] at hn
      rw [htr.skip_cons h hskip, hexNumber?]
      split at hn
      · next hd =>
        rw [if_pos hd]
        exact ⟨_, readHexBraced_trails h (by simp) ((Trails.append ds tail).skip h) hn, .append _ _⟩
      · next hd =>
        rw [if_neg hd]
        exact readHexDigits_trails h (.append (d :: ds) tail) hn
  exact ⟨rest', by rw [readHex_eq, hn', Option.bind_some, hc, Option.map_some], hrest⟩

theorem readProperty_trails (h : IsTail tail) (htr : Trails tail cs cs') {negated : Bool}
    {p : Primitive} (hread : readProperty b negated cs = some (p, rest)) :
    readProperty b negated cs' = some (p, rest ++ tail) := by
  cases hskip : skip b cs with
  | nil =>
    rw [readProperty_nil hskip] at hread
    cases hread
  | cons c ds =>
    have hskip' := htr.skip_cons h hskip
    by_cases hbrace : c = '\x7b'
    · subst hbrace
      rw [readProperty_braced hskip] at hread
      obtain ⟨⟨text, left⟩, htext, hread⟩ := Option.map_eq_some_iff.mp hread
      cases hread
      rw [readProperty_braced hskip',
        readBraced_trails h (by simp) ((Trails.append ds tail).skip h) htext, Option.map_some]
    · by_cases hslash : c = '\\'
      · subst hslash
        rw [readProperty_slash hskip] at hread
        cases hread
      · rw [readProperty_letter hskip hbrace hslash] at hread
        cases hread
        exact readProperty_letter hskip' hbrace hslash

theorem namedBoundary?_trails (h : IsTail tail) {p : Primitive}
    (hread : namedBoundary? b cs = some (p, rest)) :
    namedBoundary? b (cs ++ tail) = some (p, rest ++ tail) := by
  obtain ⟨name, a, hname, ha, rfl⟩ := namedBoundary?_eq_some.mp hread
  have hname' := readBoundaryName_trails h (show cs.length + 1 ≤ (cs ++ tail).length + 1 by simp)
    (.append cs tail) hname
  exact namedBoundary?_eq_some.mpr ⟨name, a, hname', ha, rfl⟩

theorem readBoundary_trails (h : IsTail tail) (htr : Trails tail cs cs') {p : Primitive}
    (hread : readBoundary b cs = some (p, rest)) :
    ∃ rest', readBoundary b cs' = some (p, rest') ∧ Trails tail rest rest' := by
  rcases htr with rfl | ⟨rfl, rfl⟩
  · by_cases hbrace : cs.head? = some '\x7b'
    · obtain ⟨inside, rfl⟩ := List.head?_eq_some_iff.mp hbrace
      cases hskip : skip b inside with
      | nil =>
        rw [readBoundary_nil hskip] at hread
        cases hread
      | cons c ds =>
        rw [readBoundary_brace hskip] at hread
        rw [List.cons_append, readBoundary_brace ((Trails.append inside tail).skip_cons h hskip)]
        split at hread
        · next hchar =>
          rw [if_pos hchar]
          exact ⟨_, namedBoundary?_trails h hread, .append _ _⟩
        · next hchar =>
          cases hread
          rw [if_neg hchar]
          exact ⟨_, rfl, .append _ _⟩
    · have hbrace' : (cs ++ tail).head? ≠ some '\x7b' := by
        cases cs with
        | nil => cases h <;> decide
        | cons c cs => exact hbrace
      rw [readBoundary_plain hbrace] at hread
      cases hread
      exact ⟨_, readBoundary_plain hbrace', .append _ _⟩
  · cases hread
    exact ⟨[], rfl, .nil⟩

theorem EscapeReader.trails (h : IsTail tail) {read : List Char → Option (Primitive × List Char)}
    (hread : EscapeReader b read) {p : Primitive} (hp : read cs = some (p, rest)) :
    ∃ rest', read (cs ++ tail) = some (p, rest') ∧ Trails tail rest rest' := by
  cases hread with
  | unknown => cases hp
  | letter p' =>
    cases hp
    exact ⟨_, rfl, .append _ _⟩
  | hex => exact readHex_trails h (.append _ _) hp
  | property negated => exact ⟨_, readProperty_trails h (.append _ _) hp, .append _ _⟩
  | boundary => exact readBoundary_trails h (.append _ _) hp

theorem readEscape_trails (h : IsTail tail) (htr : Trails tail cs cs') {p : Primitive}
    (hread : readEscape b cs = some (p, rest)) :
    ∃ rest', readEscape b cs' = some (p, rest') ∧ Trails tail rest rest' := by
  cases cs with
  | nil => cases hread
  | cons c cs =>
    obtain rfl := trails_cons.mp htr
    exact (escapeReader b c).trails h hread

/-! ## Classes -/

theorem asciiName?_append (h : IsTail tail) (negated : Bool) (cs : List Char) :
    asciiName? negated (cs ++ tail) =
      (asciiName? negated cs).map fun r => (r.1, r.2 ++ tail) := by
  have htail : tail.dropWhile (· ≠ ':') = [] := by cases h <;> decide
  rw [asciiName?, asciiName?, List.dropWhile_append, List.takeWhile_append]
  cases hdrop : cs.dropWhile (· ≠ ':') with
  | nil =>
    rw [List.isEmpty_nil, if_pos rfl, htail]
    rfl
  | cons c after =>
    have hless : (cs.takeWhile (· ≠ ':')).length ≠ cs.length := by
      have hsplit := congrArg List.length (List.takeWhile_append_dropWhile (p := (· ≠ ':')) (l := cs))
      rw [List.length_append, hdrop, List.length_cons] at hsplit
      omega
    rw [List.isEmpty_cons, if_neg (by decide), if_neg hless]
    cases after with
    | nil => cases h <;> simp
    | cons d after =>
      by_cases hmark : c = ':' ∧ d = ']'
      · obtain ⟨rfl, rfl⟩ := hmark
        simp [Option.map_map, Function.comp_def]
      · simp only [List.cons_append]
        split
        · next heq =>
          cases heq
          exact absurd ⟨rfl, rfl⟩ hmark
        · split
          · next heq =>
            cases heq
            exact absurd ⟨rfl, rfl⟩ hmark
          · rfl

/-- A named class is there with a tail just if it is there without. -/
theorem asciiClass?_append (h : IsTail tail) (cs : List Char) :
    asciiClass? (cs ++ tail) = (asciiClass? cs).map fun r => (r.1, r.2 ++ tail) := by
  cases cs with
  | nil => cases h <;> rfl
  | cons c cs =>
    rw [List.cons_append]
    by_cases hc : c = ':'
    · subst hc
      cases cs with
      | nil => cases h <;> rfl
      | cons d cs =>
        rw [List.cons_append]
        by_cases hd : d = '^'
        · subst hd
          rw [asciiClass?_caret, asciiClass?_caret, asciiName?_append h]
        · have hhead (cs : List Char) : (d :: cs).head? ≠ some '^' := by simpa using hd
          rw [asciiClass?_colon (hhead _), asciiClass?_colon (hhead _), ← List.cons_append,
            asciiName?_append h]
    · rw [asciiClass?_of_ne hc, asciiClass?_of_ne hc]
      rfl

theorem readClassItem_trails (h : IsTail tail) (htr : Trails tail cs cs') {p : Primitive}
    (hread : readClassItem b cs = some (p, rest)) :
    ∃ rest', readClassItem b cs' = some (p, rest') ∧ Trails tail rest rest' := by
  cases cs with
  | nil => cases hread
  | cons c cs =>
    obtain rfl := trails_cons.mp htr
    by_cases hc : c = '\\'
    · subst hc
      exact readEscape_trails h (.append _ _) hread
    · rw [readClassItem_of_ne hc] at hread ⊢
      cases hread
      exact ⟨_, rfl, .append _ _⟩

theorem rangeTo?_trails (h : IsTail tail) {first : Primitive} {set : ClassSet}
    (hread : rangeTo? b first cs = some (set, rest)) :
    ∃ rest', rangeTo? b first (cs ++ tail) = some (set, rest') ∧ Trails tail rest rest' := by
  obtain ⟨last, lo, hi, hitem, hends⟩ := rangeTo?_eq_some.mp hread
  obtain ⟨rest', hitem', hrest⟩ := readClassItem_trails h (.append cs tail) hitem
  exact ⟨rest', rangeTo?_eq_some.mpr ⟨last, lo, hi, hitem', hends⟩, hrest⟩

theorem rangeAfter?_trails (h : IsTail tail) (htr : Trails tail cs cs') {first : Primitive}
    {set : ClassSet} (hread : rangeAfter? b first cs = some (set, rest)) :
    ∃ rest', rangeAfter? b first cs' = some (set, rest') ∧ Trails tail rest rest' := by
  have hsame {s : Option ClassSet} {text : List Char} (hs : s.map (·, text) = some (set, rest)) :
      ∃ rest', s.map (·, text ++ tail) = some (set, rest') ∧ Trails tail rest rest' := by
    obtain ⟨set, rfl, heq⟩ := Option.map_eq_some_iff.mp hs
    cases heq
    exact ⟨_, rfl, .append _ _⟩
  cases cs with
  | nil => cases hread
  | cons c after =>
    obtain rfl := trails_cons.mp htr
    rw [rangeAfter?] at hread ⊢
    split at hread
    · next hc =>
      rw [if_pos hc]
      cases hskip : skip b after with
      | nil =>
        rw [hskip] at hread
        cases hread
      | cons d last =>
        rw [hskip] at hread
        rw [(Trails.append after tail).skip_cons h hskip]
        dsimp only at hread ⊢
        split at hread
        · next hd =>
          rw [if_pos hd]
          exact hsame hread
        · next hd =>
          rw [if_neg hd]
          exact rangeTo?_trails h hread
    · next hc =>
      rw [if_neg hc]
      exact hsame hread

theorem readRange_trails (h : IsTail tail) (htr : Trails tail cs cs') {set : ClassSet}
    (hread : readRange b cs = some (set, rest)) :
    ∃ rest', readRange b cs' = some (set, rest') ∧ Trails tail rest rest' := by
  rw [readRange_eq] at hread ⊢
  obtain ⟨⟨first, left⟩, hitem, hread⟩ := Option.bind_eq_some_iff.mp hread
  obtain ⟨left', hitem', hleft⟩ := readClassItem_trails h htr hitem
  rw [hitem', Option.bind_some]
  exact rangeAfter?_trails h (hleft.skip h) hread

theorem readDashes_trails (h : IsTail tail) {fuel fuel' : Nat} (hle : fuel ≤ fuel')
    (htr : Trails tail cs cs') {items items' : List ClassSet}
    (hread : readDashes b fuel items cs = some (items', rest)) :
    readDashes b fuel' items cs' = some (items', rest ++ tail) := by
  induction fuel generalizing fuel' items cs cs' with
  | zero => cases hread
  | succ fuel ih =>
    obtain ⟨fuel', rfl⟩ := Nat.exists_eq_add_of_le' hle
    cases cs with
    | nil => cases hread
    | cons c cs =>
      obtain rfl := trails_cons.mp htr
      rw [← Nat.add_assoc, readDashes]
      rw [readDashes] at hread
      split at hread
      · next hc =>
        rw [if_pos hc]
        exact ih (Nat.le_add_left _ _) ((Trails.append cs tail).skip h) hread
      · next hc =>
        cases hread
        rw [if_neg hc]
        rfl

theorem classSign_trails (h : IsTail tail) (htr : Trails tail cs cs') :
    (classSign b cs').1 = (classSign b cs).1 ∧
      Trails tail (classSign b cs).2 (classSign b cs').2 := by
  cases cs with
  | nil =>
    rcases htr with rfl | ⟨-, rfl⟩
    · cases h
      · exact ⟨rfl, .append [] _⟩
      · exact ⟨rfl, .append [] _⟩
    · exact ⟨rfl, .nil⟩
  | cons c cs =>
    obtain rfl := trails_cons.mp htr
    rw [classSign, classSign]
    split
    · exact ⟨rfl, (Trails.append cs tail).skip h⟩
    · exact ⟨rfl, .append _ _⟩

theorem classStart?_trails (h : IsTail tail) {negated : Bool} {items : List ClassSet}
    (hcs : cs ≠ []) {start : Bool × List ClassSet}
    (hread : classStart? b negated items cs = some (start, rest)) :
    classStart? b negated items (cs ++ tail) = some (start, rest ++ tail) := by
  have hhead : (cs ++ tail).head? = cs.head? := by
    obtain ⟨c, cs, rfl⟩ := List.exists_cons_of_ne_nil hcs
    rfl
  by_cases hbracket : items = [] ∧ cs.head? = some ']'
  · obtain ⟨rfl, hhead⟩ := hbracket
    obtain ⟨cs, rfl⟩ := List.head?_eq_some_iff.mp hhead
    rw [classStart?_bracket] at hread
    cases hskip : skip b cs with
    | nil =>
      rw [hskip] at hread
      cases hread
    | cons c ds =>
      rw [hskip] at hread
      cases hread
      rw [List.cons_append, classStart?_bracket, (Trails.append cs tail).skip_cons h hskip]
      rfl
  · rw [classStart?_plain hbracket] at hread
    cases hread
    exact classStart?_plain (by rwa [hhead])

theorem readDashes_ne_nil {fuel : Nat} {items items' : List ClassSet}
    (hread : readDashes b fuel items cs = some (items', rest)) : rest ≠ [] := by
  induction fuel generalizing items cs with
  | zero => cases hread
  | succ fuel ih =>
    cases cs with
    | nil => cases hread
    | cons c cs =>
      rw [readDashes] at hread
      split at hread
      · exact ih hread
      · cases hread
        exact List.cons_ne_nil _ _

theorem readClassOpen_trails (h : IsTail tail) (htr : Trails tail cs cs')
    {start : Bool × List ClassSet} (hread : readClassOpen b cs = some (start, rest)) :
    readClassOpen b cs' = some (start, rest ++ tail) := by
  rw [readClassOpen_eq] at hread ⊢
  obtain ⟨⟨items, left⟩, hdashes, hread⟩ := Option.bind_eq_some_iff.mp hread
  obtain ⟨hsign, hrest⟩ := classSign_trails (b := b) h (htr.skip (b := b) h)
  have hle : (classSign b (skip b cs)).2.length + 1 ≤ (classSign b (skip b cs')).2.length + 1 := by
    rcases hrest with heq | ⟨heq, heq'⟩
    · simp [heq]
    · simp [heq, heq']
  rw [readDashes_trails h hle hrest hdashes, Option.bind_some, hsign]
  exact classStart?_trails h (readDashes_ne_nil hdashes) hread

/-! ### The content of a class -/

theorem BeginsItem.append (h : IsTail tail) {c : Char} (hc : BeginsItem c cs) :
    BeginsItem c (cs ++ tail) := by
  refine ⟨hc.1, hc.2.1, fun hop => ?_⟩
  cases cs with
  | nil =>
    intro heq
    cases h <;> cases heq <;> exact hop (by decide)
  | cons d cs => exact hc.2.2 hop

theorem readClassBody_trails (h : IsTail tail) {fuel fuel' : Nat} (hle : fuel ≤ fuel')
    (htr : Trails tail cs cs') {pending : Option (ClassOp × ClassSet)} {items : List ClassSet}
    {set : ClassSet} (hread : readClassBody b fuel pending items cs = some (set, rest)) :
    readClassBody b fuel' pending items cs' = some (set, rest ++ tail) := by
  induction fuel generalizing fuel' pending items cs cs' set rest with
  | zero => cases hread
  | succ fuel ih =>
    obtain ⟨fuel', rfl⟩ := Nat.exists_eq_add_of_le' hle
    have hle' : fuel ≤ fuel' + fuel := Nat.le_add_left _ _
    rw [← Nat.add_assoc]
    cases hskip : skip b cs with
    | nil =>
      rw [readClassBody_nil hskip] at hread
      cases hread
    | cons c ds =>
      have hskip' := htr.skip_cons h hskip
      rcases exists_classStep c ds with rfl | rfl | ⟨op, ds, hop, rfl⟩ | hitem
      · rw [readClassBody_open hskip] at hread
        rw [readClassBody_open hskip', asciiClass?_append h]
        cases hascii : asciiClass? ds with
        | some named =>
          rw [hascii] at hread
          exact ih hle' (.append _ _) hread
        | none =>
          rw [hascii] at hread
          obtain ⟨start, hopen, hread⟩ := Option.bind_eq_some_iff.mp hread
          obtain ⟨inner, hinner, hread⟩ := Option.bind_eq_some_iff.mp hread
          simp only [Option.map_none]
          rw [readClassOpen_trails h (.append ds tail) hopen, Option.bind_some,
            ih hle' (.append _ _) hinner, Option.bind_some]
          exact ih hle' (.append _ _) hread
      · rw [readClassBody_close hskip] at hread
        cases hread
        rw [readClassBody_close hskip']
      · rw [readClassBody_op hop hskip] at hread
        rw [readClassBody_op hop hskip']
        exact ih hle' (.append _ _) hread
      · rw [readClassBody_begins hitem hskip] at hread
        obtain ⟨r, hrange, hread⟩ := Option.bind_eq_some_iff.mp hread
        obtain ⟨rest', hrange', hrest⟩ := readRange_trails h (.append (c :: ds) tail) hrange
        rw [readClassBody_begins (hitem.append h) hskip', ← List.cons_append, hrange',
          Option.bind_some]
        exact ih hle' hrest hread

theorem readClass_trails (h : IsTail tail) (htr : Trails tail cs cs') {a : Ast}
    (hread : readClass b cs = some (a, rest)) : readClass b cs' = some (a, rest ++ tail) := by
  obtain ⟨⟨⟨negated, first⟩, inside⟩, hopen, hread⟩ := Option.bind_eq_some_iff.mp hread
  obtain ⟨⟨set, left⟩, hbody, hread⟩ := Option.bind_eq_some_iff.mp hread
  cases hread
  have hbody' := readClassBody_trails h (Nat.le_add_right _ tail.length) (.append inside tail) hbody
  rw [readClass, readClassOpen_trails h htr hopen]
  simp only [Option.bind_eq_bind, Option.bind_some, List.length_append]
  rw [Nat.add_right_comm, hbody']
  rfl

/-! ## Repetition -/

section

variable {p : Char → Bool} (hp : ∀ c, tail.head? = some c → p c = false)

include hp

theorem dropWhile_append_tail (cs : List Char) :
    (cs ++ tail).dropWhile p = cs.dropWhile p ++ tail := by
  induction cs with
  | nil =>
    cases tail with
    | nil => rfl
    | cons c tail => simp [hp c rfl]
  | cons c cs ih =>
    rw [List.cons_append, List.dropWhile_cons, List.dropWhile_cons, ih]
    split <;> rfl

theorem takeWhile_append_tail (cs : List Char) :
    (cs ++ tail).takeWhile p = cs.takeWhile p := by
  induction cs with
  | nil =>
    cases tail with
    | nil => rfl
    | cons c tail => simp [hp c rfl]
  | cons c cs ih => rw [List.cons_append, List.takeWhile_cons, List.takeWhile_cons, ih]

end

theorem readCount_append (h : IsTail tail) (cs : List Char) :
    readCount (cs ++ tail) = (readCount cs).map fun r => (r.1, r.2 ++ tail) := by
  -- A tail begins with neither a blank nor a digit, so a number ends before it.
  have hblank : ∀ c, tail.head? = some c → Unicode.isWhiteSpace c = false := by
    intro c hc
    cases h <;> cases hc <;> decide +kernel
  have hdigit : ∀ c, tail.head? = some c → c.isDigit = false := by
    intro c hc
    cases h <;> cases hc <;> decide
  simp only [readCount]
  rw [dropWhile_append_tail hblank, takeWhile_append_tail hdigit, dropWhile_append_tail hdigit,
    dropWhile_append_tail hblank]
  split <;> rfl

theorem boundsTo?_trails (h : IsTail tail) {min : Nat} {bounds : Nat × Option Nat}
    (hread : boundsTo? min cs = some (bounds, rest)) :
    boundsTo? min (cs ++ tail) = some (bounds, rest ++ tail) := by
  obtain ⟨max, hcount, hbounds⟩ := boundsTo?_eq_some.mp hread
  have hcount' : readCount (cs ++ tail) = some (max, '\x7d' :: (rest ++ tail)) := by
    rw [readCount_append h, hcount]
    rfl
  exact boundsTo?_eq_some.mpr ⟨max, hcount', hbounds⟩

theorem boundsAfter?_trails (h : IsTail tail) {min : Nat} {bounds : Nat × Option Nat}
    (hread : boundsAfter? b min cs = some (bounds, rest)) :
    boundsAfter? b min (cs ++ tail) = some (bounds, rest ++ tail) := by
  cases cs with
  | nil => cases hread
  | cons c cs =>
    rw [boundsAfter?] at hread
    rw [List.cons_append, boundsAfter?]
    split at hread
    · next hc =>
      cases hread
      rw [if_pos hc]
    · next hc =>
      rw [if_neg hc]
      split at hread
      · next hcomma =>
        rw [if_pos hcomma]
        cases hskip : skip b cs with
        | nil =>
          rw [hskip] at hread
          cases hread
        | cons d ds =>
          rw [hskip] at hread
          rw [(Trails.append cs tail).skip_cons h hskip]
          dsimp only at hread ⊢
          split at hread
          · next hd =>
            cases hread
            rw [if_pos hd]
          · next hd =>
            rw [if_neg hd]
            exact boundsTo?_trails h hread
      · cases hread

theorem readBounds_trails (h : IsTail tail) (htr : Trails tail cs cs') {bounds : Nat × Option Nat}
    (hread : readBounds b cs = some (bounds, rest)) :
    readBounds b cs' = some (bounds, rest ++ tail) := by
  rw [readBounds_eq] at hread ⊢
  obtain ⟨⟨min, left⟩, hcount, hread⟩ := Option.bind_eq_some_iff.mp hread
  have hskip : skip b cs' = skip b cs ++ tail := by
    rcases htr.skip (b := b) h with heq | ⟨hnil, -⟩
    · exact heq
    · rw [hnil] at hcount
      cases hcount
  rw [hskip, readCount_append h, hcount, Option.map_some, Option.bind_some]
  exact boundsAfter?_trails h hread

theorem readGreed_trails (h : IsTail tail) (htr : Trails tail cs cs') :
    (readGreed cs').1 = (readGreed cs).1 ∧ Trails tail (readGreed cs).2 (readGreed cs').2 := by
  cases cs with
  | nil =>
    rcases htr with rfl | ⟨-, rfl⟩
    · cases h
      · exact ⟨rfl, .append [] _⟩
      · exact ⟨rfl, .append [] _⟩
    · exact ⟨rfl, .nil⟩
  | cons c cs =>
    obtain rfl := trails_cons.mp htr
    by_cases hc : c = '?'
    · subst hc
      exact ⟨rfl, .append _ _⟩
    · have hgreedy (cs : List Char) : readGreed (c :: cs) = (true, c :: cs) := by
        unfold readGreed
        split
        · next heq =>
          cases heq
          exact absurd rfl hc
        · rfl
      rw [hgreedy, hgreedy]
      exact ⟨rfl, .append _ _⟩

theorem repeated?_trails (h : IsTail tail) (htr : Trails tail cs cs') {d d' : GroupDraft}
    {min : Nat} {max : Option Nat} (hread : d.repeated? min max cs = some (d', rest)) :
    ∃ rest', d.repeated? min max cs' = some (d', rest') ∧ Trails tail rest rest' := by
  obtain ⟨hgreedy, hrest⟩ := readGreed_trails h htr
  rw [repeated?_eq] at hread ⊢
  obtain ⟨parts, hparts, hread⟩ := Option.bind_eq_some_iff.mp hread
  cases hread
  rw [hgreedy, hparts]
  exact ⟨_, rfl, hrest⟩

/-! ## Groups -/

theorem readFlags_append {on dangling : Bool} {done flags : FlagSet} (tail : List Char)
    (hread : readFlags on dangling done cs = some (flags, rest)) :
    readFlags on dangling done (cs ++ tail) = some (flags, rest ++ tail) := by
  induction cs generalizing on dangling done with
  | nil => cases hread
  | cons c cs ih =>
    rw [readFlags] at hread
    rw [List.cons_append, readFlags]
    split at hread
    · next hend =>
      rw [if_pos hend]
      split at hread
      · cases hread
      · next hdangling =>
        cases hread
        rw [if_neg hdangling]
        rfl
    · next hend =>
      rw [if_neg hend]
      split at hread
      · next hminus =>
        rw [if_pos hminus]
        split at hread
        · next hon =>
          rw [if_pos hon]
          exact ih hread
        · cases hread
      · next hminus =>
        rw [if_neg hminus]
        obtain ⟨f, hf, hread⟩ := Option.bind_eq_some_iff.mp hread
        rw [hf, Option.bind_eq_bind, Option.bind_some]
        split at hread
        · cases hread
        · next hnew =>
          rw [if_neg hnew]
          exact ih hread

theorem readName_append {done name : List Char} (tail : List Char)
    (hread : readName done cs = some (name, rest)) :
    readName done (cs ++ tail) = some (name, rest ++ tail) := by
  induction cs generalizing done with
  | nil => cases hread
  | cons c cs ih =>
    rw [readName] at hread
    rw [List.cons_append, readName]
    split at hread
    · next hend =>
      rw [if_pos hend]
      split at hread
      · cases hread
      · next hdone =>
        cases hread
        rw [if_neg hdone]
    · next hend =>
      rw [if_neg hend]
      split at hread
      · next hchar =>
        rw [if_pos hchar]
        exact ih hread
      · cases hread

theorem flagsOpen?_append (tail : List Char) {open' : GroupOpen}
    (hread : flagsOpen? cs = some (open', rest)) :
    flagsOpen? (cs ++ tail) = some (open', rest ++ tail) := by
  rw [flagsOpen?] at hread
  split at hread
  · next flags left hflags =>
    have hflags' := readFlags_append tail hflags
    split at hread
    · cases hread
    · next hsome =>
      cases hread
      rw [flagsOpen?, hflags']
      simp only [List.cons_append, if_neg hsome]
  · next flags left hflags =>
    have hflags' := readFlags_append tail hflags
    cases hread
    rw [flagsOpen?, hflags']
    rfl
  · cases hread

theorem specialOpen?_append (tail : List Char) {start : GroupOpen}
    (hread : specialOpen? cs = some (start, rest)) :
    specialOpen? (cs ++ tail) = some (start, rest ++ tail) := by
  cases cs with
  | nil => cases hread
  | cons c cs =>
    rw [specialOpen?] at hread
    rw [List.cons_append, specialOpen?]
    split at hread
    · cases hread
    · next hfirst =>
      rw [if_neg hfirst]
      split at hread
      · next hangle =>
        rw [if_pos hangle]
        split at hread
        · cases hread
        · next hlook =>
          obtain ⟨⟨name, left⟩, hname, hread⟩ := Option.map_eq_some_iff.mp hread
          cases hread
          cases cs with
          | nil => cases hname
          | cons d cs =>
            rw [readName_append tail hname]
            rw [List.cons_append, List.head?_cons]
            rw [List.head?_cons] at hlook
            rw [if_neg hlook]
            rfl
      · next hangle =>
        rw [if_neg hangle]
        split at hread
        · next hletter =>
          rw [if_pos hletter]
          split at hread
          · next hhead =>
            obtain ⟨cs, rfl⟩ := List.head?_eq_some_iff.mp hhead
            obtain ⟨⟨name, left⟩, hname, hread⟩ := Option.map_eq_some_iff.mp hread
            cases hread
            rw [List.tail_cons] at hname
            simp [readName_append tail hname]
          · cases hread
        · next hletter =>
          rw [if_neg hletter]
          exact flagsOpen?_append tail hread

theorem readGroupOpen_trails (h : IsTail tail) (htr : Trails tail cs cs') {start : GroupOpen}
    (hread : readGroupOpen b cs = some (start, rest)) :
    ∃ rest', readGroupOpen b cs' = some (start, rest') ∧ Trails tail rest rest' := by
  have hskip := htr.skip (b := b) h
  rw [readGroupOpen_eq] at hread ⊢
  cases hnil : skip b cs with
  | nil =>
    rw [hnil] at hread hskip
    cases hread
    rcases hskip with heq | ⟨-, heq⟩
    · rw [heq]
      cases h
      · exact ⟨_, rfl, .append [] _⟩
      · exact ⟨_, rfl, .append [] _⟩
    · rw [heq]
      exact ⟨_, rfl, .nil⟩
  | cons c ds =>
    rw [hnil, groupOpen?] at hread
    rw [htr.skip_cons h hnil, groupOpen?]
    split at hread
    · next hc =>
      rw [if_pos hc]
      exact ⟨_, specialOpen?_append tail hread, .append _ _⟩
    · next hc =>
      cases hread
      rw [if_neg hc]
      exact ⟨_, rfl, .append _ _⟩

/-! ### Items -/

theorem ItemReader.trails (h : IsTail tail) {d d' : GroupDraft}
    {read : List Char → Option (GroupDraft × List Char)} (hreader : ItemReader d read)
    (hread : read cs = some (d', rest)) :
    ∃ rest', read (cs ++ tail) = some (d', rest') ∧ Trails tail rest rest' := by
  cases hreader with
  | char d' =>
    cases hread
    exact ⟨_, rfl, .append _ _⟩
  | inClass =>
    obtain ⟨⟨a, left⟩, hclass, hread⟩ := Option.map_eq_some_iff.mp hread
    cases hread
    dsimp only
    rw [readClass_trails h (.append cs tail) hclass]
    exact ⟨_, rfl, .append _ _⟩
  | repetition min max => exact repeated?_trails h (.append _ _) hread
  | counted =>
    obtain ⟨⟨bounds, left⟩, hbounds, hread⟩ := Option.bind_eq_some_iff.mp hread
    dsimp only
    rw [readBounds_trails h (.append cs tail) hbounds, Option.bind_some]
    exact repeated?_trails h (.append _ _) hread
  | escape =>
    obtain ⟨⟨p, left⟩, hescape, hread⟩ := Option.map_eq_some_iff.mp hread
    obtain ⟨left', hescape', hleft⟩ := readEscape_trails h (.append cs tail) hescape
    cases hread
    dsimp only
    rw [hescape']
    exact ⟨_, rfl, hleft⟩

/-! ### The tail -/

/-- What is read of a group in a text with a tail, given what is read of it without: the same if the
group was closed or a comment reaches over the tail, and what is read of the tail if reading came to
the end of the text. -/
inductive Continues (tail : List Char) :
    GroupRead → List Char → Option (GroupRead × List Char) → Prop where
  /-- The group was closed. -/
  | closed {read : GroupRead} {rest rest' : List Char} (h : read.closed = true)
    (htr : Trails tail rest rest') : Continues tail read rest (some (read, rest'))
  /-- The tail is in a comment. -/
  | comment {read : GroupRead} (h : read.closed = false) :
    Continues tail read [] (some (read, []))
  /-- The tail is read where the text ended. -/
  | tail {d : GroupDraft} {n : Nat} (h : 3 ≤ n) :
    Continues tail (finished d false) [] (readGroup n d tail)

theorem Continues.eq_of_closed {read : GroupRead} {result : Option (GroupRead × List Char)}
    (h : Continues tail read rest result) (hclosed : read.closed = true) :
    ∃ rest', result = some (read, rest') ∧ Trails tail rest rest' := by
  cases h with
  | closed _ htr => exact ⟨_, rfl, htr⟩
  | comment hopen =>
    rw [hclosed] at hopen
    cases hopen
  | tail => cases hclosed

theorem Continues.eq_of_open {read : GroupRead} {result : Option (GroupRead × List Char)}
    (h : Continues tail read rest result) (hopen : read.closed = false) :
    result = some (read, []) ∨
      ∃ n d, 3 ≤ n ∧ read = finished d false ∧ result = readGroup n d tail := by
  cases h with
  | closed hclosed =>
    rw [hopen] at hclosed
    cases hclosed
  | comment => exact .inl rfl
  | tail hle => exact .inr ⟨_, _, hle, rfl, rfl⟩

theorem groupAfter_trails {n n' : Nat} (htr : Trails tail cs cs')
    (ih : ∀ {cs cs' rest : List Char} {d : GroupDraft}, Trails tail cs cs' → ∀ {read : GroupRead},
      readGroup n d cs = some (read, rest) → Continues tail read rest (readGroup n' d cs'))
    {d : GroupDraft} {start : GroupOpen} {read : GroupRead}
    (hread : groupAfter n d start cs = some (read, rest)) :
    Continues tail read rest (groupAfter n' d start cs') := by
  have hbody {inner : GroupDraft} {flags : FlagSet}
      (hread : groupBody n d inner flags cs = some (read, rest)) :
      Continues tail read rest (groupBody n' d inner flags cs') := by
    rw [groupBody] at hread
    split at hread
    · next body names left hinner =>
      obtain ⟨left', hinner', hleft⟩ := (ih htr hinner).eq_of_closed rfl
      rw [groupBody, hinner']
      exact ih hleft hread
    · cases hread
  cases start with
  | setFlags flags => exact ih htr hread
  | flagged flags => exact hbody hread
  | capture name =>
    rw [groupAfter] at hread ⊢
    split at hread
    · cases hread
    · next hnew =>
      rw [if_neg hnew]
      exact hbody hread

/-- A group is read in the same way in a text with a tail, up to where the text ended. -/
theorem readGroup_trails (h : IsTail tail) {n n' : Nat} (hle : n + 2 ≤ n') {d : GroupDraft}
    (htr : Trails tail cs cs') {read : GroupRead} (hread : readGroup n d cs = some (read, rest)) :
    Continues tail read rest (readGroup n' d cs') := by
  induction n generalizing n' d cs cs' read rest with
  | zero => cases hread
  | succ n ih =>
    obtain ⟨m, rfl⟩ : ∃ m, n' = m + 1 := ⟨n' - 1, by omega⟩
    have hle' : n + 2 ≤ m := by omega
    cases hskip : skip d.blanks cs with
    | nil =>
      rw [readGroup_end hskip] at hread
      cases hread
      have hboth := htr.skip (b := d.blanks) h
      rw [hskip] at hboth
      -- The text ended here: now the tail is read, unless a comment reaches over it.
      rcases hboth with heq | ⟨-, heq⟩
      · rw [readGroup_congr (heq.trans (skip_tail h).symm)]
        exact .tail (by omega)
      · rw [readGroup_end heq]
        exact .comment rfl
    | cons c ds =>
      have hskip' := htr.skip_cons h hskip
      by_cases hclose : c = ')'
      · subst hclose
        rw [readGroup_closed hskip] at hread
        cases hread
        rw [readGroup_closed hskip']
        exact .closed rfl (.append _ _)
      · by_cases hopen : c = '('
        · subst hopen
          rw [readGroup_opened hskip] at hread
          obtain ⟨⟨start, left⟩, hstart, hread⟩ := Option.bind_eq_some_iff.mp hread
          obtain ⟨left', hstart', hleft⟩ := readGroupOpen_trails h (.append ds tail) hstart
          rw [readGroup_opened hskip', hstart', Option.bind_some]
          exact groupAfter_trails hleft (fun htr _ hread => ih hle' htr hread) hread
        · rw [readGroup_item hopen hclose hskip] at hread
          obtain ⟨⟨d', left⟩, hitem, hread⟩ := Option.bind_eq_some_iff.mp hread
          obtain ⟨left', hitem', hleft⟩ := (itemReader d c).trails h hitem
          rw [readGroup_item hopen hclose hskip', hitem', Option.bind_some]
          exact ih hle' hleft hread

/-- A closing parenthesis behind a text ends the group there. -/
theorem readGroup_close_tail {n : Nat} (h : 1 ≤ n) (d : GroupDraft) :
    readGroup n d [')'] = some (finished d true, []) := by
  obtain ⟨m, rfl⟩ := Nat.exists_eq_add_of_le' h
  exact readGroup_closed (skip_tail .close)

/-- An anchor for the end behind a text is its last item. -/
theorem readGroup_endText_tail {n : Nat} (h : 3 ≤ n) (d : GroupDraft) :
    readGroup n d ['\\', 'z'] = some (finished (d.push (.anchor .endText)) false, []) := by
  obtain ⟨m, rfl⟩ := Nat.exists_eq_add_of_le' h
  rw [readGroup_item (by decide) (by decide) (skip_tail .endText)]
  exact readGroup_end skip_nil

end Regex

end PegMachine
