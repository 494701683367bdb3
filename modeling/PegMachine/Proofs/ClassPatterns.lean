import PegMachine.Generate.Code

/-!
# Patterns of character classes

The pattern of a character class that has parts is read as a class in brackets, whatever characters
stand in it, since those with a meaning of their own are escaped. So it matches one character, and
never at the end of a text.
-/

namespace PegMachine

namespace Regex

/-- The text of a part in the pattern of its class. -/
def partText : ClassPart → List Char
  | .char c => escape [c]
  | .range first last => escape [first] ++ ('-' :: escape [last])

theorem classPattern_eq (parts : List ClassPart) (inverted : Bool) :
    (classPattern parts inverted).toList =
      '[' :: ((if inverted then ['^'] else []) ++ (parts.flatMap partText ++ [']'])) := by
  rw [classPattern, String.toList_ofList]
  simp only [List.append_assoc, List.cons_append, List.nil_append]
  refine congrArg (fun text => '[' :: ((if inverted then ['^'] else []) ++ (text ++ [']']))) ?_
  refine congrArg (List.flatMap · parts) (funext fun part => ?_)
  cases part <;> rfl

/-! ## Items -/

/-- What may stand at the start of an escaped character. -/
def Leads (c : Char) : Prop := isMeta c = false ∨ c = '\\'

theorem Leads.ne {c d : Char} (h : Leads c) (hd : isMeta d = true) (hne : d ≠ '\\') : c ≠ d := by
  rintro rfl
  rcases h with h | h
  · rw [hd] at h
    cases h
  · exact hne h

theorem escape_singleton (c : Char) : escape [c] = if isMeta c then ['\\', c] else [c] := by
  simp [escape]

theorem exists_escape (c : Char) (rest : List Char) :
    ∃ d tail, escape [c] ++ rest = d :: tail ∧ Leads d := by
  rw [escape_singleton]
  split
  · exact ⟨'\\', c :: rest, rfl, .inr rfl⟩
  · next h => exact ⟨c, rest, rfl, .inl (by simpa using h)⟩

/-- A character that has a meaning of its own stands for itself after a backslash. -/
theorem readEscape_of_isMeta {c : Char} (h : isMeta c = true) (cs : List Char) :
    readEscape false (c :: cs) = some (.literal c false, cs) := by
  simp [isMeta] at h
  rcases h with rfl | rfl | rfl | rfl | rfl | rfl | rfl | rfl | rfl | rfl | rfl | rfl | rfl | rfl |
    rfl | rfl | rfl | rfl <;> rfl

theorem readClassItem_escape (c : Char) (cs : List Char) :
    readClassItem false (escape [c] ++ cs) = some (.literal c false, cs) := by
  rw [escape_singleton]
  split
  · next h => exact readEscape_of_isMeta h cs
  · next h =>
    simp only [List.cons_append, List.nil_append]
    unfold readClassItem
    split
    · next heq => cases heq
    · next heq =>
      cases heq
      exact absurd (by decide) h
    · next heq =>
      cases heq
      rfl

theorem readRange_char (c : Char) {d : Char} {tail : List Char} (hd : d ≠ '-') :
    readRange false (escape [c] ++ d :: tail) = some (.literal c false, d :: tail) := by
  rw [readRange, readClassItem_escape]
  simp only [skip, Bool.false_eq_true, if_false, Option.bind_eq_bind, Option.bind_some, itemSet?]
  split
  · next heq => cases heq
  · next heq =>
    cases heq
    exact absurd rfl hd
  · rfl

theorem readRange_range (first last : Char) (rest : List Char) :
    readRange false (escape [first] ++ '-' :: (escape [last] ++ rest)) =
      if first ≤ last then some (.range first last, rest) else none := by
  obtain ⟨d, tail, hlast, hd⟩ := exists_escape last rest
  rw [readRange, readClassItem_escape]
  simp only [skip, Bool.false_eq_true, if_false, Option.bind_eq_bind, Option.bind_some]
  have hitem := readClassItem_escape last rest
  rw [hlast] at hitem ⊢
  split
  · next heq =>
    cases heq
    exact absurd rfl (hd.ne (by decide) (by decide))
  · next heq =>
    cases heq
    exact absurd rfl (hd.ne (by decide) (by decide))
  · next heq => cases heq
  · simp [hitem, rangeEnd?]

/-! ## Parts -/

/-- The item that a part of a class is read as. -/
def partItem : ClassPart → ClassSet
  | .char c => .literal c false
  | .range first last => .range first last

/-- Whether the ends of a part are in order. -/
def inOrder : ClassPart → Bool
  | .char _ => true
  | .range first last => first ≤ last

theorem exists_partText (part : ClassPart) (rest : List Char) :
    ∃ d tail, partText part ++ rest = d :: tail ∧ Leads d := by
  cases part with
  | char c => exact exists_escape c rest
  | range first last =>
    rw [partText, List.append_assoc]
    exact exists_escape first _

/-- What stands behind a part is no dash. -/
theorem exists_partTexts (parts : List ClassPart) (tail : List Char) :
    ∃ d rest, parts.flatMap partText ++ ']' :: tail = d :: rest ∧ d ≠ '-' := by
  cases parts with
  | nil => exact ⟨']', tail, rfl, by decide⟩
  | cons part parts =>
    rw [List.flatMap_cons, List.append_assoc]
    obtain ⟨d, rest, heq, hd⟩ := exists_partText part (parts.flatMap partText ++ ']' :: tail)
    exact ⟨d, rest, heq, hd.ne (by decide) (by decide)⟩

theorem readRange_part (part : ClassPart) {d : Char} {tail : List Char} (hd : d ≠ '-') :
    readRange false (partText part ++ d :: tail) =
      if inOrder part then some (partItem part, d :: tail) else none := by
  cases part with
  | char c => exact readRange_char c hd
  | range first last =>
    rw [partText, List.append_assoc, List.cons_append, readRange_range]
    simp only [inOrder, decide_eq_true_eq]
    rfl

/-! ## The class -/

theorem readClassBody_item {fuel : Nat} {items : List ClassSet} {d : Char} {tail : List Char}
    (hd : Leads d) :
    readClassBody false (fuel + 1) none items (d :: tail) =
      (readRange false (d :: tail)).bind fun (item, rest) =>
        readClassBody false fuel none (item :: items) rest := by
  rw [readClassBody]
  simp only [skip, Bool.false_eq_true, if_false]
  split
  · next heq => cases heq
  · next heq =>
    cases heq
    exact absurd rfl (hd.ne (by decide) (by decide))
  · next heq =>
    cases heq
    exact absurd rfl (hd.ne (by decide) (by decide))
  · next heq =>
    cases heq
    exact absurd rfl (hd.ne (by decide) (by decide))
  · next heq =>
    cases heq
    exact absurd rfl (hd.ne (by decide) (by decide))
  · next heq =>
    cases heq
    exact absurd rfl (hd.ne (by decide) (by decide))
  · next heq =>
    cases heq
    rfl

/-- A part of a class is read as one item, if its ends are in order. -/
theorem readClassBody_part {fuel : Nat} {items : List ClassSet} (part : ClassPart)
    (parts : List ClassPart) (tail : List Char) :
    readClassBody false (fuel + 1) none items ((part :: parts).flatMap partText ++ ']' :: tail) =
      if inOrder part then
        readClassBody false fuel none (partItem part :: items)
          (parts.flatMap partText ++ ']' :: tail)
      else none := by
  rw [List.flatMap_cons, List.append_assoc]
  -- What the part begins with makes it an item, and what stands behind it does not go on with it.
  obtain ⟨d, rest, hrest, hne⟩ := exists_partTexts parts tail
  obtain ⟨e, tail', heq, he⟩ := exists_partText part (parts.flatMap partText ++ ']' :: tail)
  rw [heq, readClassBody_item he, ← heq, hrest, readRange_part part hne]
  split <;> rfl

/-- The class ends where its parts do. -/
theorem readClassBody_parts (parts : List ClassPart) {fuel : Nat} {items : List ClassSet}
    {tail : List Char} {out : ClassSet × List Char}
    (h : readClassBody false fuel none items (parts.flatMap partText ++ ']' :: tail) = some out) :
    out.2 = tail := by
  induction parts generalizing fuel items with
  | nil =>
    cases fuel with
    | zero => cases h
    | succ fuel =>
      cases h
      rfl
  | cons part parts ih =>
    cases fuel with
    | zero => cases h
    | succ fuel =>
      rw [readClassBody_part] at h
      split at h
      · exact ih h
      · cases h

theorem readClassOpen_of_leads (inverted : Bool) {d : Char} {rest : List Char} (hd : Leads d) :
    readClassOpen false ((if inverted then ['^'] else []) ++ d :: rest) =
      some ((inverted, []), d :: rest) := by
  have hdashes (n : Nat) : readDashes false (n + 1) [] (d :: rest) = some ([], d :: rest) := by
    rw [readDashes, if_neg (hd.ne (by decide) (by decide))]
  have hcaret : d ≠ '^' := hd.ne (by decide) (by decide)
  have hbracket : d ≠ ']' := hd.ne (by decide) (by decide)
  cases inverted <;> simp [readClassOpen, skip, hdashes, hcaret, hbracket]

theorem exists_leads {parts : List ClassPart} (hparts : parts ≠ []) (tail : List Char) :
    ∃ d rest, parts.flatMap partText ++ ']' :: tail = d :: rest ∧ Leads d := by
  obtain ⟨part, parts, rfl⟩ := List.exists_cons_of_ne_nil hparts
  rw [List.flatMap_cons, List.append_assoc]
  exact exists_partText part _

/-- A class that has parts is read as a class in brackets. -/
theorem readClass_parts {parts : List ClassPart} (hparts : parts ≠ []) (inverted : Bool)
    {tail : List Char} {out : Ast × List Char}
    (h : readClass false ((if inverted then ['^'] else []) ++ (parts.flatMap partText
      ++ ']' :: tail)) = some out) : ∃ set, out = (.bracketed set inverted, tail) := by
  obtain ⟨d, rest, hstart, hd⟩ := exists_leads hparts tail
  rw [readClass, hstart, readClassOpen_of_leads inverted hd] at h
  simp only [Option.bind_eq_bind, Option.bind_some, Option.pure_def] at h
  obtain ⟨body, hbody, hout⟩ := Option.bind_eq_some_iff.mp h
  rw [← hstart] at hbody
  have htail := readClassBody_parts parts hbody
  cases hout
  exact ⟨body.1, by rw [htail]⟩

/-! ## The pattern -/

variable {fuel : Nat} {names : List (List Char)} {branches items : List Ast} {rest : List Char}
  {out : GroupRead × List Char}

theorem readGroup_nil (h : readGroup fuel ⟨false, names, branches, items⟩ [] = some out) :
    out = (⟨alternationOf (concatOf items :: branches), names, false⟩, []) := by
  cases fuel with
  | zero => cases h
  | succ fuel =>
    cases h
    rfl

theorem readGroup_close
    (h : readGroup fuel ⟨false, names, branches, items⟩ (')' :: rest) = some out) :
    out = (⟨alternationOf (concatOf items :: branches), names, true⟩, rest) := by
  cases fuel with
  | zero => cases h
  | succ fuel =>
    cases h
    rfl

theorem readGroup_startText
    (h : readGroup fuel ⟨false, names, branches, items⟩ ('\\' :: 'A' :: rest) = some out) :
    ∃ n, readGroup n ⟨false, names, branches, .anchor .startText :: items⟩ rest = some out := by
  cases fuel with
  | zero => cases h
  | succ fuel => exact ⟨fuel, h⟩

theorem readGroup_ignoreCase
    (h : readGroup fuel ⟨false, names, branches, items⟩ ('(' :: '?' :: 'i' :: ')' :: rest) =
      some out) :
    ∃ n, readGroup n ⟨false, names, branches, .flags [(.ignoreCase, true)] :: items⟩ rest =
      some out := by
  cases fuel with
  | zero => cases h
  | succ fuel => exact ⟨fuel, h⟩

theorem readGroup_class
    (h : readGroup fuel ⟨false, names, branches, items⟩ ('[' :: rest) = some out) :
    ∃ n a rest', readClass false rest = some (a, rest') ∧
      readGroup n ⟨false, names, branches, a :: items⟩ rest' = some out := by
  cases fuel with
  | zero => cases h
  | succ fuel =>
    obtain ⟨⟨a, rest'⟩, hclass, hrest⟩ := Option.bind_eq_some_iff.mp h
    exact ⟨fuel, a, rest', hclass, hrest⟩

theorem readGroup_open
    (h : readGroup fuel ⟨false, names, branches, items⟩ ('(' :: '?' :: ':' :: rest) = some out) :
    ∃ n body names' rest', readGroup n ⟨false, names, [], []⟩ rest =
        some (⟨body, names', true⟩, rest') ∧
      readGroup n ⟨false, names', branches, .group [] body :: items⟩ rest' = some out := by
  cases fuel with
  | zero => cases h
  | succ fuel =>
    have hopen : readGroupOpen false ('?' :: ':' :: rest) = some (.flagged [], rest) := rfl
    rw [readGroup] at h
    simp only [skip, Bool.false_eq_true, if_false, hopen] at h
    split at h
    · next body names' rest' hbody => exact ⟨fuel, body, names', rest', hbody, h⟩
    · cases h

/-- The tree of the pattern of a class. -/
theorem parse?_classPattern {parts : List ClassPart} (hparts : parts ≠ []) (inverted : Bool)
    (ignoreCase : Bool) {ast : Ast}
    (h : parse? (anchored (classPattern parts inverted) ignoreCase false).toList = some ast) :
    ∃ set, ast = .concat ((if ignoreCase then [.flags [(.ignoreCase, true)]] else [])
      ++ [.anchor .startText, .group [] (.bracketed set inverted)]) := by
  have htext : (anchored (classPattern parts inverted) ignoreCase false).toList =
      (if ignoreCase then ['(', '?', 'i', ')'] else []) ++ '\\' :: 'A' :: '(' :: '?' :: ':' :: '[' ::
        ((if inverted then ['^'] else []) ++ (parts.flatMap partText ++ ']' :: [')'])) := by
    cases ignoreCase <;> simp [anchored, classPattern_eq]
  have hread : ∀ {n : Nat} {items : List Ast} {out : GroupRead × List Char},
      readGroup n ⟨false, [], [], items⟩ ('\\' :: 'A' :: '(' :: '?' :: ':' :: '[' ::
        ((if inverted then ['^'] else []) ++ (parts.flatMap partText ++ ']' :: [')']))) = some out →
      ∃ set, out.1.ast = concatOf (.group [] (.bracketed set inverted) :: .anchor .startText
        :: items) := by
    intro n items out hout
    obtain ⟨n₁, hout⟩ := readGroup_startText hout
    obtain ⟨n₂, body, names, rest, hbody, hout⟩ := readGroup_open hout
    obtain ⟨n₃, a, rest', hclass, hclosed⟩ := readGroup_class hbody
    obtain ⟨set, ha⟩ := readClass_parts hparts inverted hclass
    cases ha
    cases readGroup_close hclosed
    cases readGroup_nil hout
    exact ⟨set, rfl⟩
  rw [htext, parse?] at h
  split at h
  · next a _ _ hgroup =>
    split at h
    · cases h
      cases ignoreCase with
      | false =>
        obtain ⟨set, hset⟩ := hread hgroup
        exact ⟨set, hset⟩
      | true =>
        obtain ⟨n, hgroup⟩ := readGroup_ignoreCase hgroup
        obtain ⟨set, hset⟩ := hread hgroup
        exact ⟨set, hset⟩
    · cases h
  · cases h

/-- A class in brackets means a set of characters. -/
theorem pattern?_bracketed {f : Flags} {set : ClassSet} {negated : Bool} {r : Pattern × Flags}
    (h : (Ast.group [] (.bracketed set negated)).pattern? f = some r) :
    ∃ s, r = (.set s, f) := by
  rw [Ast.pattern?] at h
  obtain ⟨⟨p, f'⟩, hset, rfl⟩ := Option.map_eq_some_iff.mp h
  rw [Ast.pattern?] at hset
  obtain ⟨q, hq, hqp⟩ := Option.map_eq_some_iff.mp hset
  cases hqp
  obtain ⟨s, -, hs⟩ := Option.bind_eq_some_iff.mp hq
  unfold setPattern? at hs
  split at hs
  · cases hs
    exact ⟨_, rfl⟩
  · cases hs

theorem seqPattern?_cons {f : Flags} {a : Ast} {rest : List Ast} {r : Pattern × Flags}
    (h : seqPattern? f (a :: rest) = some r) :
    ∃ p f' q, a.pattern? f = some (p, f') ∧ seqPattern? f' rest = some (q, r.2) ∧
      r.1 = .seq p q := by
  rw [seqPattern?] at h
  split at h
  · cases h
  · next p f' hp =>
    obtain ⟨⟨q, f''⟩, hq, rfl⟩ := Option.map_eq_some_iff.mp h
    exact ⟨p, f', q, hp, hq, rfl⟩

/-- The pattern of a class that has parts does not match at the end of a text. -/
theorem isMatch_classPattern_nil {parts : List ClassPart} (hparts : parts ≠ []) {inverted : Bool}
    {ignoreCase : Bool} {r : Regex}
    (h : compile? (anchored (classPattern parts inverted) ignoreCase false) = some r) :
    r.isMatch [] = false := by
  obtain ⟨p, hp, rfl⟩ := Option.map_eq_some_iff.mp h
  obtain ⟨ast, hast, hp⟩ := Option.bind_eq_some_iff.mp hp
  obtain ⟨⟨p', flags⟩, hpattern, hsize⟩ := Option.bind_eq_some_iff.mp hp
  dsimp only at hsize
  obtain ⟨set, rfl⟩ := parse?_classPattern hparts inverted ignoreCase hast
  have hclass {f : Flags} {r : Pattern × Flags} (hr : seqPattern? f
      [.anchor .startText, .group [] (.bracketed set inverted)] = some r) :
      ∃ s, r.1 = .seq (.assert .startText) (.seq (.set s) .empty) := by
    obtain ⟨_, _, q, hstart, hr, hseq⟩ := seqPattern?_cons hr
    cases hstart
    obtain ⟨_, _, q', hbracketed, hr, rfl⟩ := seqPattern?_cons hr
    obtain ⟨s, hs⟩ := pattern?_bracketed hbracketed
    cases hs
    cases hr
    exact ⟨s, hseq⟩
  rw [Ast.pattern?] at hpattern
  split at hsize
  · cases hsize
    cases ignoreCase with
    | false =>
      obtain ⟨s, rfl⟩ := hclass hpattern
      rfl
    | true =>
      obtain ⟨_, _, q, hflags, hrest, rfl⟩ := seqPattern?_cons hpattern
      cases hflags
      obtain ⟨s, rfl⟩ := hclass hrest
      rfl
  · cases hsize

end Regex

end PegMachine
