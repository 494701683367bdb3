import PegMachine.Proofs.Anchoring
import PegMachine.Proofs.ClassPatterns
import PegMachine.Proofs.TerminalCode

/-!
# Character classes denote their parts

The text of a class is read back as the parts that it was written from, one item for each, whatever
characters they are and wherever they stand. So the set that the class means has just the characters
of its parts, or those that are in none of them, and the code of the class takes one character of
that set.
-/

namespace PegMachine

/-- Whether a character is one of those that a part of a class stands for. -/
def ClassPart.holds (c : Char) : ClassPart → Bool
  | .char d => c = d
  | .range first last => first ≤ c && c ≤ last

namespace Regex

variable {parts : List ClassPart} {tail : List Char}

/-! ## Reading the parts back -/

/-- Parts in order are read as one item each. -/
theorem readClassBody_inOrder (horder : ∀ part ∈ parts, inOrder part = true) (n : Nat)
    (items : List ClassSet) :
    readClassBody false (parts.length + n + 1) none items
        (parts.flatMap partText ++ ']' :: tail) =
      some (unionOf ((parts.map partItem).reverse ++ items), tail) := by
  induction parts generalizing items with
  | nil => rfl
  | cons part parts ih =>
    obtain ⟨hpart, hparts⟩ := List.forall_mem_cons.mp horder
    rw [List.length_cons, Nat.add_right_comm parts.length 1 n, readClassBody_part, if_pos hpart,
      ih hparts, List.map_cons, List.reverse_cons, List.append_assoc]
    rfl

theorem length_le_partTexts (parts : List ClassPart) :
    parts.length ≤ (parts.flatMap partText).length := by
  induction parts with
  | nil => exact le_rfl
  | cons part parts ih =>
    have hpart : 1 ≤ (partText part).length := by
      obtain ⟨d, tail, heq, -⟩ := exists_partText part []
      rw [List.append_nil] at heq
      rw [heq]
      exact Nat.le_add_left 1 _
    rw [List.flatMap_cons, List.length_append, List.length_cons]
    omega

theorem readClass_inOrder (hparts : parts ≠ []) (horder : ∀ part ∈ parts, inOrder part = true)
    (inverted : Bool) :
    readClass false ((if inverted then ['^'] else []) ++ (parts.flatMap partText ++ ']' :: tail)) =
      some (.bracketed (unionOf (parts.map partItem).reverse) inverted, tail) := by
  obtain ⟨d, rest, hstart, hd⟩ := exists_leads hparts tail
  -- There is fuel for each character, and each part is written with one at least.
  obtain ⟨n, hn⟩ : ∃ n, (parts.flatMap partText ++ ']' :: tail).length = parts.length + n := by
    refine Nat.exists_eq_add_of_le ((length_le_partTexts parts).trans ?_)
    rw [List.length_append]
    exact Nat.le_add_right _ _
  have hbody : readClassBody false (parts.length + n + 1) none []
      (parts.flatMap partText ++ ']' :: tail) = _ := readClassBody_inOrder horder n []
  rw [← hn, List.append_nil] at hbody
  rw [readClass, hstart, readClassOpen_of_leads inverted hd, ← hstart, Option.bind_eq_bind,
    Option.bind_some]
  dsimp only
  rw [hbody]
  rfl

/-- What is read of a class and the closing parenthesis behind it, if anything is read. -/
theorem readGroup_classPattern_close (hparts : parts ≠ []) (inverted : Bool) {n : Nat}
    {read : GroupRead} {rest : List Char}
    (h : readGroup n unread ((classPattern parts inverted).toList ++ [')']) = some (read, rest)) :
    read.closed = true := by
  rw [classPattern_eq, List.cons_append, List.append_assoc, List.append_assoc] at h
  obtain ⟨m, a, rest', hclass, hclose⟩ := readGroup_class h
  obtain ⟨set, heq⟩ := readClass_parts hparts inverted hclass
  cases heq
  cases readGroup_close hclose
  rfl

/-! ## The set of a class -/

/-- The characters of a part. -/
def partSet : ClassPart → CharSet
  | .char c => .single c
  | .range first last => .range first last

theorem mem_partSet (part : ClassPart) (c : Char) : (partSet part).mem c = part.holds c := by
  cases part with
  | range first last => rfl
  | char d =>
    have hsame : (d ≤ c ∧ c ≤ d) ↔ c = d := by
      rw [and_comm]
      exact antisymm_iff
    simp only [partSet, CharSet.single, CharSet.mem, ClassPart.holds, ← Bool.decide_and, hsame]

/-- One part stands for itself, several make a union. -/
theorem unionOf_parts (hparts : parts ≠ []) : (∃ part, parts = [part] ∧
      unionOf (parts.map partItem).reverse = partItem part) ∨
    unionOf (parts.map partItem).reverse = .union (parts.map partItem) := by
  by_cases hone : ∃ part, parts = [part]
  · obtain ⟨part, rfl⟩ := hone
    exact .inl ⟨part, rfl, rfl⟩
  · right
    unfold unionOf
    split
    · next set hset =>
      have hlength : (parts.map partItem).reverse.length = 1 := by rw [hset, List.length_singleton]
      rw [List.length_reverse, List.length_map] at hlength
      exact absurd (List.length_eq_one_iff.mp hlength) hone
    · rw [List.reverse_reverse]

theorem depth_partItem (part : ClassPart) : (partItem part).depth = 0 := by cases part <;> rfl

theorem depth_unionOf_parts (hparts : parts ≠ []) :
    (unionOf (parts.map partItem).reverse).depth ≤ 1 := by
  have hzero : depthOfSets (parts.map partItem) = 0 := by
    clear hparts
    induction parts with
    | nil => rfl
    | cons part parts ih => rw [List.map_cons, depthOfSets, depth_partItem, ih, Nat.max_self]
  rcases unionOf_parts hparts with ⟨part, -, hunion⟩ | hunion
  · rw [hunion, depth_partItem]
    exact Nat.zero_le 1
  · rw [hunion, ClassSet.depth, hzero]

theorem set?_partItem (part : ClassPart) : (partItem part).set? .initial = some (partSet part) := by
  cases part <;> rfl

theorem unionOfSets?_parts (parts : List ClassPart) :
    unionOfSets? .initial (parts.map partItem) = some (.unionAll (parts.map partSet)) := by
  induction parts with
  | nil => rfl
  | cons part parts ih =>
    rw [List.map_cons, unionOfSets?, set?_partItem, ih]
    rfl

theorem mem_unionAll_parts (parts : List ClassPart) (c : Char) :
    (CharSet.unionAll (parts.map partSet)).mem c = parts.any (·.holds c) := by
  induction parts with
  | nil => rfl
  | cons part parts ih =>
    rw [List.any_cons, ← ih, ← mem_partSet]
    rfl

theorem spans_partSet (part : ClassPart) : (partSet part).spans = 1 := by cases part <;> rfl

theorem spans_unionAll_parts (parts : List ClassPart) :
    (CharSet.unionAll (parts.map partSet)).spans = parts.length := by
  induction parts with
  | nil => rfl
  | cons part parts ih =>
    rw [List.length_cons, ← ih, Nat.add_comm, ← spans_partSet part]
    rfl

/-- The set that was read has the characters of the parts, and no more spans than there are parts. -/
theorem exists_set? (hparts : parts ≠ []) : ∃ chars,
    (unionOf (parts.map partItem).reverse).set? .initial = some chars ∧
      (∀ c, chars.mem c = parts.any (·.holds c)) ∧ chars.spans = parts.length := by
  rcases unionOf_parts hparts with ⟨part, rfl, hunion⟩ | hunion
  · refine ⟨partSet part, by rw [hunion, set?_partItem], fun c => ?_, spans_partSet part⟩
    rw [mem_partSet, List.any_cons, List.any_nil, Bool.or_false]
  · rw [hunion, ClassSet.set?, unionOfSets?_parts]
    exact ⟨_, rfl, mem_unionAll_parts parts, spans_unionAll_parts parts⟩

/-! ## The pattern of a class -/

/-- The tree of a class whose parts are in order. -/
theorem parse?_classPattern_inOrder (hparts : parts ≠ [])
    (horder : ∀ part ∈ parts, inOrder part = true) (inverted : Bool) :
    parse? (classPattern parts inverted).toList =
      some (.bracketed (unionOf (parts.map partItem).reverse) inverted) := by
  have hdepth : (Ast.bracketed (unionOf (parts.map partItem).reverse) inverted).depth ≤
      depthLimit := by
    rw [Ast.depth, depthLimit]
    have := depth_unionOf_parts hparts
    omega
  obtain ⟨n, hn⟩ : ∃ n, (classPattern parts inverted).toList.length = n + 1 := by
    rw [classPattern_eq]
    exact ⟨_, rfl⟩
  have hread : readGroup ((classPattern parts inverted).toList.length + 1) unread
      (classPattern parts inverted).toList =
      some (⟨.bracketed (unionOf (parts.map partItem).reverse) inverted, [], false⟩, []) := by
    rw [hn, classPattern_eq, readGroup_item (by decide) (by decide) rfl]
    change ((readClass false _).map _).bind _ = _
    rw [readClass_inOrder hparts horder]
    rfl
  exact parse?_of_readGroup hread hdepth

theorem signed_initial (inverted : Bool) (chars : CharSet) :
    setPattern? .initial (signed inverted (foldSet .initial chars)) =
      some (.set (signed inverted chars)) := rfl

/-- A class whose parts are in order is compiled, anchored, just if it is not too large. -/
theorem compile?_classPattern (hparts : parts ≠ [])
    (horder : ∀ part ∈ parts, inOrder part = true) (inverted : Bool) {chars : CharSet}
    (hchars : (unionOf (parts.map partItem).reverse).set? .initial = some chars) :
    compile? (anchored (classPattern parts inverted) false false) =
      if setStates (signed inverted chars) + 2 ≤ statesLimit then
        some ⟨anchored (classPattern parts inverted) false false,
          anchoredPattern false false (.set (signed inverted chars))⟩
      else none := by
  have hparse := parse?_classPattern_inOrder hparts horder inverted
  -- The bracket at its end is no comment, so the parenthesis around it closes.
  have hcomment : ¬EndsInComment (classPattern parts inverted).toList := by
    rintro ⟨-, n, read, rest, hread, hopen⟩
    rw [readGroup_classPattern_close hparts inverted hread] at hopen
    cases hopen
  have hdepth : (Ast.bracketed (unionOf (parts.map partItem).reverse) inverted).depth + 2 ≤
      depthLimit := by
    rw [Ast.depth, depthLimit]
    have := depth_unionOf_parts hparts
    omega
  have hset : (Ast.bracketed (unionOf (parts.map partItem).reverse) inverted).pattern?
      (.given false false) = some (.set (signed inverted chars), .given false false) := by
    change (Ast.bracketed _ inverted).pattern? .initial = some (_, .initial)
    rw [Ast.pattern?, hchars, Option.bind_some, signed_initial]
    rfl
  rw [compile?, pattern?, parse?_anchored hparse hcomment hdepth, Option.bind_eq_bind,
    Option.bind_some, pattern?_anchoredAst, hset, Option.map_some, Option.bind_eq_bind,
    Option.bind_some]
  dsimp only
  have hstates : (anchoredPattern false false (.set (signed inverted chars))).states =
      setStates (signed inverted chars) + 2 := by
    simp only [anchoredPattern, Bool.or_self, Bool.false_eq_true, if_false, Pattern.states]
    omega
  rw [hstates]
  split <;> rfl

theorem mem_signed (inverted : Bool) (chars : CharSet) (c : Char) :
    (signed inverted chars).mem c = (chars.mem c != inverted) := by
  cases inverted with
  | false => exact (Bool.bne_false _).symm
  | true => exact (Bool.bne_true _).symm

/-- A set matches where a character of it is next. -/
theorem isMatch_set (source : String) (chars : CharSet) (text : List Char) :
    isMatch ⟨source, anchoredPattern false false (.set chars)⟩ text = text.head?.any chars.mem := by
  rw [isMatch, matchEnd?, find?_anchoredPattern, Option.isSome_map]
  cases text with
  | nil => rfl
  | cons c text =>
    simp only [Pattern.matchAt?, Pattern.ends, Cursor.advance?, Cursor.start, List.head?_cons,
      Option.any_some]
    split
    · next h => rw [h]; rfl
    · next h => rw [Bool.eq_false_of_not_eq_true h]; rfl

/-- A class with fewer parts than half the states that there may be is not too large. -/
theorem setStates_signed_le (inverted : Bool) {chars : CharSet} (h : chars.spans = parts.length)
    (hlength : 2 * parts.length + 6 ≤ statesLimit) :
    setStates (signed inverted chars) + 2 ≤ statesLimit := by
  have hspans : (signed inverted chars).spans ≤ parts.length + 1 := by
    rw [← h]
    cases inverted with
    | false => exact Nat.le_add_right _ 1
    | true => exact le_rfl
  have hstates : setStates (signed inverted chars) ≤ 2 * (signed inverted chars).spans + 2 := by
    unfold setStates
    split
    · exact le_rfl
    · exact Nat.le_add_left 1 _
  omega

end Regex

/-- What a class takes of a text, given the set of its characters. -/
theorem Peg.taken?_class {input : Input} {a : Nat} {cs : List Char} {parts : List ClassPart}
    {raw : String} (ha : input.rest? a = some cs) (hparts : parts ≠ [])
    (horder : ∀ part ∈ parts, Regex.inOrder part = true) (inverted : Bool) {chars : Regex.CharSet}
    (hchars : (Regex.unionOf (parts.map Regex.partItem).reverse).set? .initial = some chars)
    (hmem : ∀ c, chars.mem c = parts.any (·.holds c))
    (hsize : Regex.setStates (Regex.signed inverted chars) + 2 ≤ Regex.statesLimit)
    (text : List Char) :
    taken? input a (.charClass parts inverted false raw) = some text ↔
      ∃ c rest, cs = c :: rest ∧ parts.any (·.holds c) ≠ inverted ∧ text = [c] := by
  rw [taken?, if_neg (by simpa using hparts), Input.rest_eq ha,
    Regex.compile?_classPattern hparts horder inverted hchars, if_pos hsize]
  dsimp only
  rw [Option.any_some, Regex.isMatch_set]
  cases cs with
  | nil => simp
  | cons c rest =>
    rw [List.head?_cons, Option.any_some, Regex.mem_signed, hmem]
    constructor
    · intro h
      split at h
      · next hne =>
        cases h
        exact ⟨c, rest, rfl, bne_iff_ne.mp hne, rfl⟩
      · cases h
    · rintro ⟨c, rest, heq, hne, rfl⟩
      cases heq
      rw [if_pos (bne_iff_ne.mpr hne)]
      rfl

section

variable {σ : Type} {E : Setting σ} {s : State σ} {p q : Pools} {code : Code} {g : Grammar}
  {f : Facts} {depth height : Nat} {id : NodeId} {scope scope' : Scope} {action? : Option String}
  {parts : List ClassPart} {inverted : Bool} {raw : String} {cs : List Char}

end

/-- A grammar of one class, whose parts are written with characters that have a meaning of their
own. -/
def punctuation : Grammar where
  rules := [{ name := "start", expression := 0 }]
  nodes := #[⟨.charClass [.char '^', .range '[' ']', .char '-', .char '&', .char '&'] true false
    "[^^[-\\]\\-&&]", none⟩]

/-- The program of that grammar. -/
def punctuationProgram : Program where
  rules := #[⟨"start", false, #[18, 1, 2, 2, 19, 1, 21, 0]⟩]
  constants := #[.expected (.ofClass "[^^[-\\]\\-&&]"),
    .pattern "[^\\^\\[-\\]\\-\\&\\&]" false false]
  actions := #[]
  starters := [0]
  defaultStart := 0
  memoize := false
  trace := false
  statistics := false

end PegMachine
