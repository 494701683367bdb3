import PegMachine.Proofs.Cuts
import PegMachine.Proofs.EmptyMatches

/-!
# Anchored patterns

A parser uses a pattern inside a larger one, which holds it at the start of the text that is left.
What is checked is the larger pattern. For a pattern that keeps to its parentheses that comes to the
same: the larger pattern is one just if the pattern is one on its own, and it takes what the
preferred match of the pattern at that place takes. A pattern that closes a parenthesis which it did
not open escapes from the larger one, and one that ends in a comment hides the end of it.
-/

namespace PegMachine

namespace Regex

/-! ## Patterns on their own -/

/-- The flags that a pattern is given from outside. -/
def Flags.given (ignoreCase multiLine : Bool) : Flags :=
  { Flags.initial with ignoreCase, multiLine }

/-- The meaning of a pattern on its own under the flags it is given, if the text is one. -/
def alone? (source : String) (ignoreCase multiLine : Bool) : Option Pattern := do
  let ast ← parse? source.toList
  let (p, _) ← ast.pattern? (.given ignoreCase multiLine)
  if p.states ≤ statesLimit then some p else none

/-- Nothing was read of a pattern yet. -/
def unread : GroupDraft := ⟨false, [], [], []⟩

/-- No parenthesis of a pattern closes a group that was opened before it. -/
def KeepsOpen (source : List Char) : Prop :=
  ∀ n read rest, readGroup n unread (source ++ [')']) = some (read, rest) → read.closed = true →
    rest = []

/-- A pattern ends in a comment, so that a parenthesis behind it closes nothing. -/
def EndsInComment (source : List Char) : Prop :=
  (parse? source).isSome = true ∧
    ∃ n read rest, readGroup n unread (source ++ [')']) = some (read, rest) ∧ read.closed = false

/-- A pattern stays within the limits if it is nested two levels deeper and has three more states,
which is what it takes to anchor it. -/
def LeavesRoom (source : String) (ignoreCase multiLine : Bool) : Prop :=
  (∀ a ∈ parse? source.toList, a.depth + 2 ≤ depthLimit) ∧
    ∀ p ∈ alone? source ignoreCase multiLine, p.states + 3 ≤ statesLimit

variable {source : List Char} {ignoreCase multiLine : Bool}

theorem parse?_eq_some {a : Ast} (h : parse? source = some a) :
    a.depth ≤ depthLimit ∧ ∃ names rest,
      readGroup (source.length + 1) unread source = some (⟨a, names, false⟩, rest) := by
  rw [parse?] at h
  split at h
  · next names rest hread =>
    split at h
    · next hdepth =>
      cases h
      exact ⟨hdepth, names, rest, hread⟩
    · cases h
  · cases h

theorem parse?_of_readGroup {a : Ast} {names : List (List Char)} {rest : List Char}
    (h : readGroup (source.length + 1) unread source = some (⟨a, names, false⟩, rest))
    (hdepth : a.depth ≤ depthLimit) : parse? source = some a := by
  rw [unread] at h
  rw [parse?, h]
  exact if_pos hdepth

/-- A pattern on its own, by its tree. -/
theorem alone?_eq_some {value : String} {p : Pattern}
    (h : alone? value ignoreCase multiLine = some p) :
    ∃ a f, parse? value.toList = some a ∧
      a.pattern? (.given ignoreCase multiLine) = some (p, f) ∧ p.states ≤ statesLimit := by
  obtain ⟨a, ha, h⟩ := Option.bind_eq_some_iff.mp h
  obtain ⟨⟨p, f⟩, hp, h⟩ := Option.bind_eq_some_iff.mp h
  dsimp only at h
  split at h
  · next hstates =>
    cases h
    exact ⟨a, f, ha, hp, hstates⟩
  · cases h

/-- What is read of a pattern alone is what is read of it in parentheses, unless it ends in a
comment. -/
theorem readGroup_close_of_parse? {a : Ast} (h : parse? source = some a)
    (hcomment : ¬EndsInComment source) {n : Nat} (hle : source.length + 3 ≤ n) :
    ∃ names, readGroup n unread (source ++ [')']) = some (⟨a, names, true⟩, []) := by
  obtain ⟨-, names, rest, hread⟩ := parse?_eq_some h
  rcases (readGroup_trails .close hle (.append source [')']) hread).eq_of_open rfl with
    hsame | ⟨m, d, hm, hfinished, htail⟩
  · refine absurd ⟨by rw [h]; rfl, n, _, _, hsame, rfl⟩ hcomment
  · refine ⟨names, ?_⟩
    rw [htail, readGroup_close_tail (by omega)]
    cases hfinished
    rfl

/-- What is read of a pattern in parentheses is what is read of it alone, if it keeps to them. -/
theorem readGroup_of_close (hopen : KeepsOpen source) {n : Nat} {a : Ast} {names : List (List Char)}
    {rest : List Char}
    (h : readGroup n unread (source ++ [')']) = some (⟨a, names, true⟩, rest)) :
    rest = [] ∧ readGroup (source.length + 1) unread source = some (⟨a, names, false⟩, []) := by
  obtain rfl := hopen n _ _ h rfl
  obtain ⟨result, hresult, hcuts⟩ : ∃ result, readGroup (source.length + 1) unread source = result ∧
    Cuts ⟨a, names, true⟩ [] result := ⟨_, rfl, readGroup_cut (Nat.lt_succ_self _) h rfl⟩
  refine ⟨rfl, ?_⟩
  -- Nothing is left behind the parenthesis, so it is the one that closed the group.
  generalize hrest : ([] : List Char) = rest at hcuts
  cases hcuts with
  | behind => exact hresult
  | inside left => exact absurd hrest (by simp)

/-- A pattern that can be read alone closes no parenthesis that it did not open. -/
theorem keepsOpen_of_parse? (h : (parse? source).isSome = true) : KeepsOpen source := by
  intro n read rest hread hclosed
  obtain ⟨a, ha⟩ := Option.isSome_iff_exists.mp h
  obtain ⟨-, names, left, halone⟩ := parse?_eq_some ha
  have hcuts := readGroup_cut (Nat.lt_succ_self source.length) hread hclosed
  rw [halone] at hcuts
  cases hcuts with
  | behind => rfl
  | inside => cases hclosed

/-! ## The pattern around it -/

/-- The changes of flags in front of a pattern. -/
def flagsOf (ignoreCase multiLine : Bool) : FlagSet :=
  (if ignoreCase then [(.ignoreCase, true)] else []) ++ if multiLine then [(.multiLine, true)] else []

/-- The items in front of a pattern, last one first. -/
def frontOf (ignoreCase multiLine : Bool) : List Ast :=
  .anchor .startText ::
    if ignoreCase || multiLine then [.flags (flagsOf ignoreCase multiLine)] else []

/-- The tree of an anchored pattern. -/
def anchoredAst (ignoreCase multiLine : Bool) (a : Ast) : Ast :=
  .concat (.group [] a :: frontOf ignoreCase multiLine).reverse

/-- The meaning of an anchored pattern. -/
def anchoredPattern (ignoreCase multiLine : Bool) (p : Pattern) : Pattern :=
  let q : Pattern := .seq (.assert .startText) (.seq p .empty)
  if ignoreCase || multiLine then .seq .empty q else q

theorem readGroup_front (n : Nat) (items : List Ast) (cs : List Char) :
    readGroup (n + 2) ⟨false, [], [], items⟩ ('\\' :: 'A' :: '(' :: '?' :: ':' :: cs) =
      groupBody n ⟨false, [], [], .anchor .startText :: items⟩ unread [] cs := by
  have hanchor : readItem? ⟨false, [], [], items⟩ '\\' ('A' :: '(' :: '?' :: ':' :: cs) =
      some (⟨false, [], [], .anchor .startText :: items⟩, '(' :: '?' :: ':' :: cs) := rfl
  have hopen : readGroupOpen false ('?' :: ':' :: cs) = some (.flagged [], cs) := rfl
  rw [readGroup_item (by decide) (by decide) rfl, hanchor, Option.bind_some, readGroup_opened rfl]
  dsimp only
  rw [hopen]
  rfl

theorem readGroup_flags {n : Nat} {flags : FlagSet} {text cs : List Char}
    (h : readGroupOpen false text = some (.setFlags flags, cs))
    (hblanks : blanksAfter false flags = false) :
    readGroup (n + 1) unread ('(' :: text) = readGroup n ⟨false, [], [], [.flags flags]⟩ cs := by
  rw [readGroup_opened rfl]
  change (readGroupOpen false text).bind _ = _
  rw [h, Option.bind_some, groupAfter]
  change readGroup n ⟨blanksAfter false flags, [], [], [.flags flags]⟩ cs = _
  rw [hblanks]

theorem toList_anchored (value : String) (ignoreCase multiLine : Bool) :
    (anchored value ignoreCase multiLine).toList =
      (if ignoreCase || multiLine then
        '(' :: '?' :: ((if ignoreCase then ['i'] else []) ++ (if multiLine then ['m'] else []) ++ [')'])
        else []) ++ '\\' :: 'A' :: '(' :: '?' :: ':' :: (value.toList ++ [')']) := by
  cases ignoreCase <;> cases multiLine <;> simp [anchored]

/-- Reading an anchored pattern comes to the pattern in its parentheses. -/
theorem readGroup_anchored (value : String) (ignoreCase multiLine : Bool) :
    ∃ n, value.toList.length + 3 ≤ n + 1 ∧
      readGroup ((anchored value ignoreCase multiLine).toList.length + 1) unread
          (anchored value ignoreCase multiLine).toList =
        groupBody (n + 1) ⟨false, [], [], frontOf ignoreCase multiLine⟩ unread []
          (value.toList ++ [')']) := by
  obtain ⟨m, hm, hle⟩ : ∃ m, (anchored value ignoreCase multiLine).toList.length + 1 = m + 4 ∧
      value.toList.length + 3 ≤ m + 1 := by
    refine ⟨(anchored value ignoreCase multiLine).toList.length - 3, ?_, ?_⟩ <;>
    · rw [toList_anchored]
      simp only [List.length_append, List.length_cons]
      omega
  rw [hm, toList_anchored]
  -- Without flags there is an item less in front, and more fuel is left.
  cases ignoreCase <;> cases multiLine
  · exact ⟨m + 1, by omega, readGroup_front _ _ _⟩
  all_goals exact ⟨m, hle, (readGroup_flags rfl rfl).trans (readGroup_front _ _ _)⟩

/-- The parentheses are closed behind the pattern. -/
theorem groupBody_closed {n : Nat} {outer inner : GroupDraft} {flags : FlagSet} {cs : List Char}
    {a : Ast} {names : List (List Char)}
    (h : readGroup (n + 1) inner cs = some (⟨a, names, true⟩, [])) :
    groupBody (n + 1) outer inner flags cs =
      some (finished { outer.push (.group flags a) with names } false, []) := by
  rw [groupBody, h]
  exact readGroup_end skip_nil

theorem depth_anchoredAst (ignoreCase multiLine : Bool) (a : Ast) :
    (anchoredAst ignoreCase multiLine a).depth = a.depth + 2 := by
  cases ignoreCase <;> cases multiLine <;>
    simp [anchoredAst, frontOf, Ast.depth, depthOfAsts]

/-- A pattern can be read in its parentheses if it can be read alone. -/
theorem parse?_anchored {value : String} {a : Ast} (h : parse? value.toList = some a)
    (hcomment : ¬EndsInComment value.toList) (hdepth : a.depth + 2 ≤ depthLimit)
    (ignoreCase multiLine : Bool) :
    parse? (anchored value ignoreCase multiLine).toList =
      some (anchoredAst ignoreCase multiLine a) := by
  obtain ⟨n, hle, hread⟩ := readGroup_anchored value ignoreCase multiLine
  obtain ⟨names, hinner⟩ := readGroup_close_of_parse? h hcomment hle
  rw [groupBody_closed hinner] at hread
  exact parse?_of_readGroup hread ((depth_anchoredAst ignoreCase multiLine a).trans_le hdepth)

/-- A pattern can be read alone if it can be read in its parentheses and keeps to them. -/
theorem parse?_of_anchored {value : String} {b : Ast} (hopen : KeepsOpen value.toList)
    (h : parse? (anchored value ignoreCase multiLine).toList = some b) :
    ∃ a, parse? value.toList = some a ∧ b = anchoredAst ignoreCase multiLine a := by
  obtain ⟨hdepth, names, rest, hread⟩ := parse?_eq_some h
  obtain ⟨n, -, hbody⟩ := readGroup_anchored value ignoreCase multiLine
  rw [hbody, groupBody] at hread
  split at hread
  · next a names' left hinner =>
    obtain ⟨rfl, halone⟩ := readGroup_of_close hopen hinner
    rw [readGroup_end skip_nil] at hread
    cases hread
    refine ⟨a, ?_, rfl⟩
    have hless : a.depth ≤ depthLimit :=
      Nat.le_trans (Nat.le_add_right _ 2) ((depth_anchoredAst ignoreCase multiLine a).ge.trans hdepth)
    exact parse?_of_readGroup halone hless
  · cases hread

theorem pattern?_anchoredAst (ignoreCase multiLine : Bool) (a : Ast) :
    (anchoredAst ignoreCase multiLine a).pattern? .initial =
      (a.pattern? (.given ignoreCase multiLine)).map fun r =>
        (anchoredPattern ignoreCase multiLine r.1, .given ignoreCase multiLine) := by
  have hflags : Flags.initial.setAll (flagsOf ignoreCase multiLine) =
      .given ignoreCase multiLine := by cases ignoreCase <;> cases multiLine <;> rfl
  have hgroup (f : Flags) : seqPattern? f [.anchor .startText, .group [] a] =
      (a.pattern? f).map fun r => (.seq (.assert .startText) (.seq r.1 .empty), f) := by
    have hbody : (Ast.group [] a).pattern? f = (a.pattern? f).map fun r => (r.1, f) := by
      rw [Ast.pattern?]
      rfl
    rw [seqPattern?, Ast.pattern?]
    dsimp only
    rw [seqPattern?, hbody]
    cases a.pattern? f <;> rfl
  cases hcase : ignoreCase || multiLine with
  | false =>
    obtain ⟨rfl, rfl⟩ := Bool.or_eq_false_iff.mp hcase
    rw [anchoredAst, Ast.pattern?]
    exact hgroup .initial
  | true =>
    rw [anchoredAst, frontOf, hcase, if_pos rfl, Ast.pattern?]
    change seqPattern? .initial [.flags (flagsOf ignoreCase multiLine), .anchor .startText,
      .group [] a] = _
    rw [seqPattern?, Ast.pattern?]
    dsimp only
    rw [hflags, hgroup, Option.map_map]
    refine congrArg (Option.map · _) (funext fun r => ?_)
    rw [anchoredPattern, hcase, if_pos rfl]
    rfl

theorem states_anchoredPattern (ignoreCase multiLine : Bool) (p : Pattern) :
    p.states ≤ (anchoredPattern ignoreCase multiLine p).states ∧
      (anchoredPattern ignoreCase multiLine p).states ≤ p.states + 3 := by
  rw [anchoredPattern]
  split <;>
  · simp only [Pattern.states]
    omega

/-- A pattern that keeps to its parentheses is compiled, anchored, just if it is one on its own. -/
theorem compile?_anchored {value : String} (hopen : KeepsOpen value.toList)
    (hcomment : ¬EndsInComment value.toList) (hroom : LeavesRoom value ignoreCase multiLine) :
    compile? (anchored value ignoreCase multiLine) = (alone? value ignoreCase multiLine).map fun p =>
      ⟨anchored value ignoreCase multiLine, anchoredPattern ignoreCase multiLine p⟩ := by
  suffices h : pattern? (anchored value ignoreCase multiLine).toList =
      (alone? value ignoreCase multiLine).map (anchoredPattern ignoreCase multiLine) by
    rw [compile?, h, Option.map_map]
    rfl
  cases hone : alone? value ignoreCase multiLine with
  | some p =>
    obtain ⟨a, f, ha, hp, -⟩ := alone?_eq_some hone
    have hstates := (states_anchoredPattern ignoreCase multiLine p).2.trans (hroom.2 p hone)
    rw [pattern?, parse?_anchored ha hcomment (hroom.1 a ha), Option.bind_eq_bind, Option.bind_some,
      pattern?_anchoredAst, hp]
    exact if_pos hstates
  | none =>
    -- If the larger pattern was one, the text in it would be one with no more states.
    refine Option.eq_none_iff_forall_ne_some.mpr fun r hr => ?_
    obtain ⟨b, hb, hr⟩ := Option.bind_eq_some_iff.mp hr
    obtain ⟨a, ha, rfl⟩ := parse?_of_anchored hopen hb
    rw [pattern?_anchoredAst] at hr
    obtain ⟨r', hmap, hr⟩ := Option.bind_eq_some_iff.mp hr
    obtain ⟨⟨p, f⟩, hp, rfl⟩ := Option.map_eq_some_iff.mp hmap
    dsimp only at hr
    split at hr
    · next hstates =>
      have hless := (states_anchoredPattern ignoreCase multiLine p).1.trans hstates
      rw [alone?, ha, Option.bind_eq_bind, Option.bind_some, hp, Option.bind_eq_bind,
        Option.bind_some] at hone
      dsimp only at hone
      rw [if_pos hless] at hone
      cases hone
    · cases hr

/-! ## Matches -/

theorem Pattern.matchAt?_seq {p q : Pattern} {c : Cursor} (h : p.ends c = [c]) :
    (seq p q).matchAt? c = q.matchAt? c := by
  rw [matchAt?, ends, h, List.flatMap_singleton, Cursor.head?_distinct]
  rfl

theorem Pattern.matchAt?_seq_empty (p : Pattern) (c : Cursor) :
    (seq p .empty).matchAt? c = p.matchAt? c := by
  have hsame : (p.ends c).flatMap Pattern.empty.ends = p.ends c := List.flatMap_singleton' _
  rw [matchAt?, ends, hsame, Cursor.head?_distinct]
  rfl

/-- An anchored pattern finds what the pattern itself prefers at the start of a text. -/
theorem find?_anchoredPattern (ignoreCase multiLine : Bool) (p : Pattern) (text : List Char) :
    (anchoredPattern ignoreCase multiLine p).find? text = p.matchAt? (.start text) := by
  have hstart : (Pattern.seq (.assert .startText) (.seq p .empty)).matchAt? (.start text) =
      p.matchAt? (.start text) :=
    (Pattern.matchAt?_seq rfl).trans (p.matchAt?_seq_empty _)
  rw [anchoredPattern]
  split
  · exact (Pattern.matchAt?_seq rfl).trans hstart
  · exact hstart

end Regex

/-! ## The parser -/

/-- Code is generated for a regular expression in any case, with one more defect if what is made of
it is no pattern. -/
theorem Generate.regex_eq_ok (value : String) (ignoreCase multiLine : Bool) (raw : String)
    (location : Option Location) (pools : Pools) :
    ∃ code pools', Generate.regex value ignoreCase multiLine raw location pools =
        .ok (code, pools') ∧
      pools'.defects =
        if (Regex.compile? (Regex.anchored value ignoreCase multiLine)).isNone then
          pools.defects.push ("Invalid regular expression " ++ raw ++ ".", location)
        else pools.defects := by
  cases hnone : (Regex.compile? (Regex.anchored value ignoreCase multiLine)).isNone with
  | true =>
    simp only [regex, hnone]
    exact ⟨_, _, rfl, rfl⟩
  | false =>
    simp only [regex, hnone]
    exact ⟨_, _, rfl, rfl⟩

/-- A pattern that closes the parenthesis around it is none on its own, but it is accepted, and then
it finds what stands further on in a text. -/
example : (Regex.alone? "a)|(?:b" false false).isNone = true ∧
    (Regex.compile? (Regex.anchored "a)|(?:b" false false)).bind (·.matchEnd? ['x', 'b']) = some 2 := by
  decide +kernel

/-- A pattern that ends in a comment is one on its own, but it is not accepted. -/
example : (Regex.alone? "(?x)a # c" false false).isSome = true ∧
    (Regex.compile? (Regex.anchored "(?x)a # c" false false)).isNone = true := by
  decide +kernel

end PegMachine
