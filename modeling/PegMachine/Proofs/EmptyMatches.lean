import PegMachine.Analysis.Consumption
import PegMachine.Proofs.ClassPatterns
import PegMachine.Proofs.Generation
import PegMachine.Proofs.MatchEnds
import PegMachine.Proofs.Tails
import PegMachine.Proofs.Termination

/-!
# Empty matches

Whether a pattern can match without taking a character is tried on the empty text. That tells what
happens at the start of other texts, except that a word can start there, where the empty text has
none. A pattern that does not ask for the start of a word takes a character wherever it matches, if
it does not match the empty text.
-/

namespace PegMachine

namespace Regex

/-! ## Words -/

/-- Whether an assertion can only hold at the start of a text if a word starts there. -/
def Assertion.asksForWord : Assertion → Bool
  | .wordBoundary _ => true
  | .wordStart _ => true
  | _ => false

/-- Whether a pattern has an assertion that can only hold at the start of a text if a word starts
there. -/
def Pattern.asksForWord : Pattern → Bool
  | .empty => false
  | .set _ => false
  | .assert a => a.asksForWord
  | .seq p q => p.asksForWord || q.asksForWord
  | .alt p q => p.asksForWord || q.asksForWord
  | .rep body _ _ _ => body.asksForWord

/-- No word starts with a text. -/
def NoWord (text : List Char) : Prop := ∀ c, text.head? = some c → isWordChar true c = false

theorem isWordChar_of_not_unicode {c : Char} (h : isWordChar true c = false) (unicode : Bool) :
    isWordChar unicode c = false := by
  cases unicode with
  | true => exact h
  | false =>
    rw [isWordChar] at h ⊢
    split at h
    · next hascii => rw [if_pos hascii]; exact h
    · next hascii => rw [if_neg hascii, Bool.false_and]

theorem NoWord.isWord {text : List Char} (h : NoWord text) (unicode : Bool) :
    isWord unicode text.head? = false := by
  cases hhead : text.head? with
  | none => rfl
  | some c => exact isWordChar_of_not_unicode (h c hhead) unicode

/-- What holds at the start of a text holds of the empty text, if it does not ask for a word that
starts there. -/
theorem Assertion.holds_nil {a : Assertion} {text : List Char}
    (hword : a.asksForWord = true → NoWord text) (h : a.holds (.start text) = true) :
    a.holds (.start []) = true := by
  cases a with
  | wordBoundary unicode =>
    have hnone := (hword rfl).isWord unicode
    change (isWord unicode none != isWord unicode text.head?) = true at h
    rw [hnone] at h
    cases h
  | wordStart unicode =>
    have hnone := (hword rfl).isWord unicode
    change (!isWord unicode none && isWord unicode text.head?) = true at h
    rw [hnone] at h
    cases h
  | wordEnd unicode => simp [holds, Cursor.start, isWord] at h
  | endLine crlf => cases crlf <;> rfl
  | startText => rfl
  | endText => rfl
  | startLine crlf => rfl
  | notWordBoundary unicode => rfl
  | wordStartHalf unicode => rfl
  | wordEndHalf unicode => rfl

/-! ## Lists of places -/

theorem Cursor.foldl_keep (cs : List Cursor) (seen : Std.HashSet Nat) (kept : List Cursor) :
    ∃ more, (cs.foldl distinct.keep (seen, kept)).2 = more ++ kept := by
  induction cs generalizing seen kept with
  | nil => exact ⟨[], rfl⟩
  | cons c cs ih =>
    rw [List.foldl_cons, distinct.keep]
    split
    · exact ih seen kept
    · obtain ⟨more, hmore⟩ := ih (seen.insert c.index) (c :: kept)
      exact ⟨more ++ [c], by rw [hmore, List.append_assoc]; rfl⟩

/-- The preferred place stays the first one. -/
theorem Cursor.head?_distinct (cs : List Cursor) : (distinct cs).head? = cs.head? := by
  rcases cs with - | ⟨c, - | ⟨d, cs⟩⟩
  · rfl
  · rfl
  · obtain ⟨more, hmore⟩ := foldl_keep (d :: cs) ((∅ : Std.HashSet Nat).insert c.index) [c]
    have hfirst : (c :: d :: cs).foldl distinct.keep (∅, []) =
        (d :: cs).foldl distinct.keep ((∅ : Std.HashSet Nat).insert c.index, [c]) := by
      rw [List.foldl_cons, distinct.keep, if_neg (by simp)]
    rw [distinct, hfirst, hmore, List.reverse_append]
    · rfl
    · rintro ⟨⟩
    · rintro _ ⟨⟩

theorem Cursor.distinct_eq_nil {cs : List Cursor} : distinct cs = [] ↔ cs = [] := by
  rw [← List.head?_eq_none_iff, head?_distinct, List.head?_eq_none_iff]

theorem Visit.ends_eq_nil {v : Visit} : v.ends = [] ↔ v.found = [] := by
  rw [ends, Cursor.distinct_eq_nil, List.reverse_eq_nil_iff]

/-! ## Ends at the end of a text -/

section

variable {step : Cursor → List Cursor} {greedy : Bool} {c : Cursor} {v : Visit}

theorem visitStar_ne_nil (fuel : Nat) (c : Cursor) (hv : v.found ≠ []) :
    (visitStar step greedy fuel c v).found ≠ [] := by
  induction fuel generalizing c v with
  | zero => exact hv
  | succ fuel ih =>
    rw [visitStar]
    split
    · exact hv
    · dsimp only
      split
      · exact List.cons_ne_nil _ _
      · exact List.foldlRecOn (motive := fun v : Visit => v.found ≠ []) _ _
          (List.cons_ne_nil _ _) fun _ hv e _ => ih e hv

theorem visitPlus_ne_nil (fuel : Nat) (c : Cursor) (hv : v.found ≠ []) :
    (visitPlus step greedy fuel c v).found ≠ [] := by
  induction fuel generalizing c v with
  | zero => exact hv
  | succ fuel ih =>
    rw [visitPlus]
    split
    · exact hv
    · refine List.foldlRecOn (motive := fun v : Visit => v.found ≠ []) _ _ hv fun _ hv e _ => ?_
      split
      · exact List.cons_ne_nil _ _
      · exact ih e (List.cons_ne_nil _ _)

theorem visitUpTo_ne_nil (left : Nat) (c : Cursor) (hv : v.found ≠ []) :
    (visitUpTo step greedy left c v).found ≠ [] := by
  induction left generalizing c v with
  | zero => exact List.cons_ne_nil _ _
  | succ left ih =>
    rw [visitUpTo]
    split
    · exact hv
    · dsimp only
      split
      · exact List.cons_ne_nil _ _
      · exact List.foldlRecOn (motive := fun v : Visit => v.found ≠ []) _ _
          (List.cons_ne_nil _ _) fun _ hv e _ => ih e hv

theorem not_visited_none (left : Nat) (c : Cursor) : Visit.none.visited left c = false := by
  simp [Visit.none, Visit.visited]

theorem visitStar_none (fuel : Nat) (c : Cursor) :
    (visitStar step greedy (fuel + 1) c .none).found ≠ [] := by
  rw [visitStar, not_visited_none, if_neg Bool.false_ne_true]
  dsimp only
  split
  · exact List.cons_ne_nil _ _
  · exact List.foldlRecOn (motive := fun v : Visit => v.found ≠ []) _ _
      (List.cons_ne_nil _ _) fun _ hv e _ => visitStar_ne_nil fuel e hv

theorem visitUpTo_none (left : Nat) (c : Cursor) :
    (visitUpTo step greedy left c .none).found ≠ [] := by
  cases left with
  | zero => exact List.cons_ne_nil _ _
  | succ left =>
    rw [visitUpTo, not_visited_none, if_neg Bool.false_ne_true]
    dsimp only
    split
    · exact List.cons_ne_nil _ _
    · exact List.foldlRecOn (motive := fun v : Visit => v.found ≠ []) _ _
        (List.cons_ne_nil _ _) fun _ hv e _ => visitUpTo_ne_nil left e hv

theorem visitPlus_none (fuel : Nat) {c : Cursor} (hstep : step c ≠ []) :
    (visitPlus step greedy (fuel + 1) c .none).found ≠ [] := by
  obtain ⟨e, es, hes⟩ := List.exists_cons_of_ne_nil hstep
  rw [visitPlus, not_visited_none, if_neg Bool.false_ne_true, hes, List.foldl_cons]
  refine List.foldlRecOn (motive := fun v : Visit => v.found ≠ []) _ _ ?_ fun _ hv e _ => ?_
  · split
    · exact List.cons_ne_nil _ _
    · exact visitPlus_ne_nil fuel e (List.cons_ne_nil _ _)
  · split
    · exact List.cons_ne_nil _ _
    · exact visitPlus_ne_nil fuel e (List.cons_ne_nil _ _)

/-- Where nothing can be taken, what can be repeated once can be repeated any number of times. -/
theorem exactly_ne_nil (hsame : ∀ e ∈ step c, e = c) (hstep : step c ≠ []) (n : Nat)
    {cs : List Cursor} (hcs : cs ≠ []) (hall : ∀ e ∈ cs, e = c) :
    exactly step n cs ≠ [] ∧ ∀ e ∈ exactly step n cs, e = c := by
  induction n generalizing cs with
  | zero => exact ⟨hcs, hall⟩
  | succ n ih =>
    rw [exactly, if_neg (by simpa using hcs)]
    refine ih ?_ (Cursor.forall_distinct fun e he => ?_)
    · obtain ⟨d, hd⟩ := List.exists_mem_of_ne_nil cs hcs
      rw [Ne, Cursor.distinct_eq_nil, List.flatMap_eq_nil_iff]
      exact fun hnone => hstep (hall d hd ▸ hnone d hd)
    · obtain ⟨d, hd, he⟩ := List.mem_flatMap.mp he
      rw [hall d hd] at he
      exact hsame e he

theorem distinct_flatMap_ne_nil {f : Cursor → List Cursor} {cs : List Cursor} (hcs : cs ≠ [])
    (hf : ∀ e ∈ cs, f e ≠ []) : Cursor.distinct (cs.flatMap f) ≠ [] := by
  obtain ⟨d, hd⟩ := List.exists_mem_of_ne_nil cs hcs
  rw [Ne, Cursor.distinct_eq_nil, List.flatMap_eq_nil_iff]
  exact fun hnone => hf d hd (hnone d hd)

/-- Where nothing can be taken, a repetition only fails if it has to repeat what fails. -/
theorem repeated_eq_nil (hsame : ∀ e ∈ step c, e = c) {nullable : Bool} {min : Nat}
    {max : Option Nat} (h : repeated step greedy nullable min max c = []) :
    0 < min ∧ step c = [] := by
  have hsingle : ∀ e ∈ [c], e = c := fun e he => List.mem_singleton.mp he
  by_cases hmin : min = 0
  · subst hmin
    refine absurd h ?_
    cases max with
    | some max =>
      refine distinct_flatMap_ne_nil (List.cons_ne_nil _ _) fun e _ => ?_
      rw [Ne, Visit.ends_eq_nil]
      exact visitUpTo_none _ _
    | none =>
      rw [repeated, if_pos rfl]
      split
      · rw [anyNullable, Visit.ends_eq_nil]
        split
        · exact List.cons_ne_nil _ _
        · exact visitPlus_ne_nil _ _ (List.cons_ne_nil _ _)
      · rw [Visit.ends_eq_nil]
        exact visitStar_none _ _
  · -- What matches once without taking anything does so as often as it has to.
    refine ⟨Nat.pos_of_ne_zero hmin, by_contra fun hstep => ?_⟩
    have hexactly (n : Nat) := exactly_ne_nil hsame hstep n (List.cons_ne_nil c []) hsingle
    refine absurd h ?_
    cases max with
    | some max =>
      refine distinct_flatMap_ne_nil (hexactly min).1 fun e _ => ?_
      rw [Ne, Visit.ends_eq_nil]
      exact visitUpTo_none _ _
    | none =>
      rw [repeated, if_neg hmin]
      refine distinct_flatMap_ne_nil (hexactly (min - 1)).1 fun e he => ?_
      rw [Ne, Visit.ends_eq_nil, (hexactly (min - 1)).2 e he]
      exact visitPlus_none _ hstep

end

/-! ## Matches that take something -/

section

variable {K : Cursor → Prop} {step : Cursor → List Cursor} {greedy : Bool} {c : Cursor} {v : Visit}
  (hstep : ∀ c, K c → ∀ e ∈ step c, K e) (hfirst : ∀ e ∈ step c, K e)
include hstep hfirst

/-- What holds after one step and is kept by steps holds after some repetitions. -/
theorem visitPlus_keeps_of_first (fuel : Nat) (hv : v.Keeps K) :
    (visitPlus step greedy fuel c v).Keeps K := by
  cases fuel with
  | zero => exact hv
  | succ fuel =>
    rw [visitPlus]
    split
    · exact hv
    · refine List.foldlRecOn (motive := Visit.Keeps K) _ _ (hv.mark 0 c) fun _ hv e he => ?_
      have hk : K e := hfirst e he
      split
      · exact (visitPlus_keeps hstep fuel hk hv).emit hk
      · exact visitPlus_keeps hstep fuel hk (hv.emit hk)

theorem exactly_keeps_of_first {n : Nat} (hn : 0 < n) : ∀ e ∈ exactly step n [c], K e := by
  obtain ⟨n, rfl⟩ := Nat.exists_eq_add_of_le' hn
  rw [exactly, if_neg (by simp)]
  refine exactly_keeps hstep n (Cursor.forall_distinct fun e he => ?_)
  rw [List.flatMap_singleton] at he
  exact hfirst e he

theorem repeated_keeps_of_first {nullable : Bool} {min : Nat} {max : Option Nat} (hmin : 0 < min) :
    ∀ e ∈ repeated step greedy nullable min max c, K e := by
  cases max with
  | some max =>
    refine Cursor.forall_distinct fun e he => ?_
    obtain ⟨d, hd, he⟩ := List.mem_flatMap.mp he
    have hk := exactly_keeps_of_first hstep hfirst hmin d hd
    exact (visitUpTo_keeps hstep _ hk .none).ends e he
  | none =>
    rw [repeated, if_neg (Nat.ne_of_gt hmin)]
    refine Cursor.forall_distinct fun e hmem => ?_
    obtain ⟨d, hd, he⟩ := List.mem_flatMap.mp hmem
    rcases Nat.eq_zero_or_pos (min - 1) with hone | hmore
    · rw [hone, exactly, List.mem_singleton] at hd
      rw [hd] at he
      exact (visitPlus_keeps_of_first hstep hfirst _ .none).ends e he
    · have hk := exactly_keeps_of_first hstep hfirst hmore d hd
      exact (visitPlus_keeps hstep _ hk .none).ends e he

end

theorem Cursor.advance?_index {c e : Cursor} {s : CharSet} (h : c.advance? s = some e) :
    e.index = c.index + 1 := by
  rw [advance?] at h
  split at h
  · cases h
  · split at h
    · cases h
      rfl
    · cases h

/-- A place is where a match of a text starts, or behind it. -/
def Cursor.From (text : List Char) (c : Cursor) : Prop := c = .start text ∨ 0 < c.index

theorem Pattern.from_of_ends (p : Pattern) {text : List Char} :
    ∀ e ∈ p.ends (.start text), e.From text := by
  refine p.ends_keep (fun c s e _ h => .inr ?_) (.inl rfl)
  rw [Cursor.advance?_index h]
  exact Nat.succ_pos _

/-- Nothing but the start is left of the empty text. -/
theorem Pattern.eq_of_ends_nil (p : Pattern) : ∀ e ∈ p.ends (.start []), e = .start [] := by
  refine p.ends_keep (fun c s e hc h => ?_) rfl
  rw [hc] at h
  cases h

theorem Pattern.pos_of_pos (p : Pattern) {c : Cursor} (hc : 0 < c.index) :
    ∀ e ∈ p.ends c, 0 < e.index := by
  refine p.ends_keep (fun c s e _ h => ?_) hc
  rw [Cursor.advance?_index h]
  exact Nat.succ_pos _

/-- A pattern that does not match the empty text takes a character of every text that it matches,
if it does not ask for a word that starts there. -/
theorem Pattern.pos_of_ends {p : Pattern} {text : List Char}
    (hword : p.asksForWord = true → NoWord text) (hnil : p.ends (.start []) = []) :
    ∀ e ∈ p.ends (.start text), 0 < e.index := by
  induction p with
  | empty => cases hnil
  | set s =>
    intro e he
    rw [Cursor.advance?_index (Option.mem_toList.mp he)]
    exact Nat.succ_pos _
  | assert a =>
    intro e he
    rw [ends] at hnil he
    split at he
    · next hholds =>
      rw [if_pos (Assertion.holds_nil hword hholds)] at hnil
      cases hnil
    · cases he
  | seq p q ihp ihq =>
    refine Cursor.forall_distinct fun e he => ?_
    obtain ⟨d, hd, he⟩ := List.mem_flatMap.mp he
    rcases p.from_of_ends d hd with rfl | hpos
    · -- The first part took nothing, so it matches the empty text, and the second one does not.
      by_cases hp : p.ends (.start []) = []
      · exact absurd (ihp (fun h => hword (Bool.or_eq_true_iff.mpr (.inl h))) hp _ hd) (Nat.lt_irrefl 0)
      · refine ihq (fun h => hword (Bool.or_eq_true_iff.mpr (.inr h))) (by_contra fun hq => ?_) e he
        refine distinct_flatMap_ne_nil hp (fun d hd => ?_) hnil
        rwa [p.eq_of_ends_nil d hd]
    · exact q.pos_of_pos hpos e he
  | alt p q ihp ihq =>
    rw [ends, Cursor.distinct_eq_nil, List.append_eq_nil_iff] at hnil
    refine Cursor.forall_distinct fun e he => ?_
    rcases List.mem_append.mp he with he | he
    · exact ihp (fun h => hword (Bool.or_eq_true_iff.mpr (.inl h))) hnil.1 e he
    · exact ihq (fun h => hword (Bool.or_eq_true_iff.mpr (.inr h))) hnil.2 e he
  | rep body min max greedy ih =>
    obtain ⟨hmin, hbody⟩ := repeated_eq_nil body.eq_of_ends_nil hnil
    exact repeated_keeps_of_first (K := fun e => 0 < e.index) (fun c hc => body.pos_of_pos hc)
      (ih hword hbody) hmin

/-! ## The test -/

/-- A pattern matches the empty text. -/
def Pattern.Empties (p : Pattern) : Prop := p.ends (.start []) ≠ []

theorem Pattern.empties_seq {p q : Pattern} : (seq p q).Empties ↔ p.Empties ∧ q.Empties := by
  constructor
  · intro h
    refine ⟨fun hp => h ?_, fun hq => h ?_⟩
    · rw [ends, hp]
      rfl
    · rw [ends, Cursor.distinct_eq_nil, List.flatMap_eq_nil_iff]
      intro d hd
      rw [p.eq_of_ends_nil d hd, hq]
  · rintro ⟨hp, hq⟩
    refine distinct_flatMap_ne_nil hp fun d hd => ?_
    rwa [p.eq_of_ends_nil d hd]

theorem Pattern.empties_alt {p q : Pattern} : (alt p q).Empties ↔ p.Empties ∨ q.Empties := by
  rw [Empties, ends, Ne, Cursor.distinct_eq_nil, List.append_eq_nil_iff, not_and_or]
  rfl

/-- What one tree means matches the empty text if what another one means does. -/
def Ast.Widens (a a' : Ast) : Prop :=
  ∀ f r', a'.pattern? f = some r' →
    ∃ q, a.pattern? f = some (q, r'.2) ∧ (q.Empties → r'.1.Empties)

theorem seqPattern?_append_endText {f : Flags} {parts : List Ast} {r' : Pattern × Flags}
    (h : seqPattern? f (parts ++ [.anchor .endText]) = some r') :
    ∃ q, seqPattern? f parts = some (q, r'.2) ∧ (q.Empties → r'.1.Empties) := by
  induction parts generalizing f r' with
  | nil =>
    cases h
    exact ⟨.empty, rfl, fun _ => Pattern.empties_seq.mpr ⟨List.cons_ne_nil _ _, List.cons_ne_nil _ _⟩⟩
  | cons a parts ih =>
    obtain ⟨p, f', q', hp, hq', hr'⟩ := seqPattern?_cons h
    obtain ⟨q, hq, himp⟩ := ih hq'
    refine ⟨.seq p q, by rw [seqPattern?, hp]; simp only [hq]; rfl, fun hempties => ?_⟩
    rw [hr']
    rw [Pattern.empties_seq] at hempties ⊢
    exact ⟨hempties.1, himp hempties.2⟩

/-- A sequence means what its only item means, or what its items mean together. -/
theorem concatOf_pattern? {f : Flags} {parts : List Ast} {r : Pattern × Flags}
    (h : seqPattern? f parts.reverse = some r) :
    ∃ q, (concatOf parts).pattern? f = some (q, r.2) ∧ (q.Empties → r.1.Empties) := by
  match parts with
  | [] =>
    cases h
    exact ⟨.empty, rfl, id⟩
  | [a] =>
    obtain ⟨p, f', q, hp, hq, hr⟩ := seqPattern?_cons h
    cases hq
    refine ⟨p, hp, fun hempties => ?_⟩
    rw [hr]
    exact Pattern.empties_seq.mpr ⟨hempties, List.cons_ne_nil _ _⟩
  | a :: a' :: parts => exact ⟨r.1, h, id⟩

theorem concatOf_widens (parts : List Ast) :
    (concatOf parts).Widens (concatOf (.anchor .endText :: parts)) := by
  intro f r' h
  cases parts with
  | nil =>
    cases h
    exact ⟨.empty, rfl, fun _ => List.cons_ne_nil _ _⟩
  | cons a parts =>
    change seqPattern? f (.anchor .endText :: a :: parts).reverse = some r' at h
    rw [List.reverse_cons] at h
    obtain ⟨q, hq, himp⟩ := seqPattern?_append_endText h
    obtain ⟨q₀, hq₀, himp₀⟩ := concatOf_pattern? hq
    exact ⟨q₀, hq₀, fun hempties => himp (himp₀ hempties)⟩

theorem altPattern?_cons_cons (f : Flags) (a b : Ast) (branches : List Ast) :
    altPattern? f (a :: b :: branches) =
      (a.pattern? f).bind fun r =>
        (altPattern? r.2 (b :: branches)).map fun r' => (.alt r.1 r'.1, r'.2) := by
  cases hp : a.pattern? f with
  | none => simp only [altPattern?, hp, Option.bind_none]
  | some r => simp only [altPattern?, hp, Option.bind_some]

theorem altPattern?_append {a a' : Ast} (ha : a.Widens a') {f : Flags} {branches : List Ast}
    {r' : Pattern × Flags} (h : altPattern? f (branches ++ [a']) = some r') :
    ∃ q, altPattern? f (branches ++ [a]) = some (q, r'.2) ∧ (q.Empties → r'.1.Empties) := by
  induction branches generalizing f r' with
  | nil => exact ha f r' h
  | cons b branches ih =>
    -- There is an alternative behind this one, so it is not the only one.
    have hmore (x : Ast) : ∃ c cs, branches ++ [x] = c :: cs := by
      cases branches with
      | nil => exact ⟨x, [], rfl⟩
      | cons c cs => exact ⟨c, cs ++ [x], rfl⟩
    have halt (x : Ast) : altPattern? f (b :: (branches ++ [x])) = (b.pattern? f).bind fun r =>
        (altPattern? r.2 (branches ++ [x])).map fun r' => (.alt r.1 r'.1, r'.2) := by
      obtain ⟨c, cs, hcs⟩ := hmore x
      rw [hcs]
      exact altPattern?_cons_cons f b c cs
    rw [List.cons_append, halt] at h ⊢
    obtain ⟨⟨p, f'⟩, hp, h⟩ := Option.bind_eq_some_iff.mp h
    obtain ⟨⟨q', f''⟩, hq', rfl⟩ := Option.map_eq_some_iff.mp h
    obtain ⟨q, hq, himp⟩ := ih hq'
    refine ⟨.alt p q, by rw [hp, Option.bind_some, hq, Option.map_some], fun hempties => ?_⟩
    rw [Pattern.empties_alt] at hempties ⊢
    exact hempties.imp_right himp

theorem alternationOf_widens {a a' : Ast} (ha : a.Widens a') (branches : List Ast) :
    (alternationOf (a :: branches)).Widens (alternationOf (a' :: branches)) := by
  intro f r' h
  cases branches with
  | nil => exact ha f r' h
  | cons b branches =>
    change altPattern? f (a' :: b :: branches).reverse = some r' at h
    change ∃ q, altPattern? f (a :: b :: branches).reverse = some (q, r'.2) ∧ _
    rw [List.reverse_cons] at h ⊢
    exact altPattern?_append ha h

/-- With an anchor for the end behind a pattern, the pattern is the same or is anchored there. -/
theorem parse?_endText {source : List Char} {a a' : Ast} (h : parse? source = some a)
    (h' : parse? (source ++ ['\\', 'z']) = some a') : a.Widens a' := by
  have hself : a.Widens a := fun f r hr => ⟨r.1, hr, id⟩
  rw [parse?] at h h'
  split at h
  · next names rest hread =>
    have hcontinues := readGroup_trails .endText
      (show source.length + 1 + 2 ≤ (source ++ ['\\', 'z']).length + 1 by simp)
      (.append source _) hread
    split at h
    · next hdepth =>
      cases h
      rcases hcontinues.eq_of_open rfl with hsame | ⟨n, d, hle, hfinished, hmore⟩
      · rw [hsame] at h'
        cases (if_pos hdepth).symm.trans h'
        exact hself
      · rw [hmore, readGroup_endText_tail hle] at h'
        cases hfinished
        dsimp only [finished] at h'
        split at h'
        · cases h'
          exact alternationOf_widens (concatOf_widens d.parts) d.branches
        · cases h'
    · cases h
  · cases h

theorem ends_nil_of_find? {p : Pattern} (h : p.find? [] = none) : p.ends (.start []) = [] := by
  rw [← List.head?_eq_none_iff]
  rw [Pattern.find?] at h
  split at h
  · exact h
  · rw [List.length_nil, Pattern.search?] at h
    split at h
    · cases h
    · next hnone => exact hnone

/-- The test tells of the pattern itself, not only with the anchor behind it. -/
theorem ends_nil_of_matchesEmpty? {value : String} {ignoreCase multiLine : Bool} {r : Regex}
    (hr : compile? (anchored value ignoreCase multiLine) = some r)
    (htest : matchesEmpty? value ignoreCase multiLine = some false) :
    r.pattern.ends (.start []) = [] := by
  obtain ⟨p, hp, rfl⟩ := Option.map_eq_some_iff.mp hr
  obtain ⟨r', hr', hmatch⟩ := Option.map_eq_some_iff.mp htest
  obtain ⟨p', hp', rfl⟩ := Option.map_eq_some_iff.mp hr'
  -- What is tested is the same pattern with an anchor for the end behind it.
  rw [String.toList_append] at hp'
  obtain ⟨a, ha, hp⟩ := Option.bind_eq_some_iff.mp hp
  obtain ⟨a', ha', hp'⟩ := Option.bind_eq_some_iff.mp hp'
  obtain ⟨⟨q, f⟩, hq, hp⟩ := Option.bind_eq_some_iff.mp hp
  obtain ⟨⟨q', f'⟩, hq', hp'⟩ := Option.bind_eq_some_iff.mp hp'
  dsimp only at hp hp'
  split at hp
  · cases hp
    split at hp'
    · cases hp'
      obtain ⟨q₀, hq₀, himp⟩ := parse?_endText ha ha' _ _ hq'
      rw [hq] at hq₀
      cases hq₀
      by_contra hempties
      have hfind : p'.find? [] = none := by
        rw [isMatch, matchEnd?, Option.isSome_map] at hmatch
        exact Option.isNone_iff_eq_none.mp (Option.isSome_eq_false_iff.mp hmatch)
      exact himp hempties (ends_nil_of_find? hfind)
    · cases hp'
  · cases hp

theorem Cursor.advance?_index_le {c e : Cursor} {s : CharSet} (hc : c.index ≤ c.offset)
    (h : c.advance? s = some e) : e.index ≤ e.offset := by
  rw [advance?] at h
  split at h
  · cases h
  · next d _ _ =>
    split at h
    · cases h
      exact Nat.add_le_add hc d.utf8Size_pos
    · cases h

/-- A match that takes a character ends behind it. -/
theorem pos_of_matchEnd? {r : Regex} {text : List Char} {n : Nat}
    (hnil : r.pattern.ends (.start []) = []) (hword : r.pattern.asksForWord = true → NoWord text)
    (h : r.matchEnd? text = some n) : 0 < n := by
  obtain ⟨e, hfind, rfl⟩ := Option.map_eq_some_iff.mp h
  have hoffset : e.index ≤ e.offset :=
    r.pattern.find?_keeps (fun _ _ _ => Cursor.advance?_index_le) (Nat.le_refl 0) hfind
  have hfirst (hat : r.pattern.matchAt? (.start text) = some e) : 0 < e.index :=
    r.pattern.pos_of_ends hword hnil e (List.mem_of_mem_head? hat)
  suffices 0 < e.index from Nat.lt_of_lt_of_le this hoffset
  rw [Pattern.find?] at hfind
  split at hfind
  · exact hfirst hfind
  · rw [Pattern.search?] at hfind
    split at hfind
    · next hat =>
      cases hfind
      exact hfirst hat
    · -- A match that starts further on ends there as well.
      obtain ⟨d, hd, hfind⟩ := Option.bind_eq_some_iff.mp hfind
      refine r.pattern.search?_keeps (K := fun c => 0 < c.index) (fun c s e _ h => ?_) _ ?_ hfind
      · rw [Cursor.advance?_index h]
        exact Nat.succ_pos _
      · rw [Cursor.advance?_index hd]
        exact Nat.succ_pos _

end Regex

/-! ## Progress -/

/-- The end of a match, by the text that is taken. -/
theorem State.acceptRegexp_of_matchEnd? {σ : Type} {E : Setting σ} {s : State σ} {c n : Nat}
    {r : Regex} (hpattern : E.pattern? c = some r) (hend : r.matchEnd? (s.rest E) = some n) :
    (s.acceptRegexp E c).2.pos = s.pos + n := by
  obtain ⟨xs, ys, hrest, rfl⟩ := Regex.matchEnd?_eq_some hend
  simp only [acceptRegexp, accept, hpattern, Option.bind_some, hend, Option.getD_some]
  rw [hrest, Text.takeBytes_append]

/-- A boundary of words is not found in the empty text, but it is at the start of a word, and no
character is taken there. -/
example : Regex.matchesEmpty? "\\b" false false = some false ∧
    (Regex.compile? (Regex.anchored "\\b" false false)).bind (·.matchEnd? ['a']) = some 0 := by
  decide +kernel

/-- No regular expression of a grammar asks for a word to start. -/
def Grammar.AsksForNoWord (g : Grammar) : Prop :=
  ∀ id value ignoreCase multiLine raw, g.shape id = .regex value ignoreCase multiLine raw → ∀ r,
    Regex.compile? (Regex.anchored value ignoreCase multiLine) = some r → r.pattern.asksForWord = false

namespace Peg

theorem neverEmpty_of_not_asksForWord {input : Input} {value raw : String}
    {ignoreCase multiLine : Bool}
    (htest : Consumption.regexMatchesEmpty (.regex value ignoreCase multiLine raw) = false)
    (hword : ∀ r, Regex.compile? (Regex.anchored value ignoreCase multiLine) = some r →
      r.pattern.asksForWord = false) :
    NeverEmpty input (.regex value ignoreCase multiLine raw) := by
  rintro a cs text ha htaken rfl
  rw [taken?] at htaken
  split at htaken
  · next hmatch =>
    obtain ⟨r, hr, hmatch⟩ := (Option.any_eq_true _ _).mp hmatch
    obtain ⟨n, hend⟩ := Option.isSome_iff_exists.mp hmatch
    have htest' : Regex.matchesEmpty? value ignoreCase multiLine = some false := by
      rw [Consumption.regexMatchesEmpty] at htest
      cases hknown : Regex.matchesEmpty? value ignoreCase multiLine with
      | none =>
        rw [hknown] at htest
        cases htest
      | some empty =>
        rw [hknown, Option.getD_some] at htest
        rw [htest]
    have hpos := Regex.pos_of_matchEnd? (Regex.ends_nil_of_matchesEmpty? hr htest')
      (fun h => absurd h (Bool.eq_false_iff.mp (hword r hr))) hend
    obtain ⟨xs, ys, hrest, rfl⟩ := Regex.matchEnd?_eq_some hend
    rw [hr, Option.bind_some, hend, Option.getD_some, hrest] at htaken
    dsimp only at htaken
    rw [Text.takeBytes_append] at htaken
    cases htaken
    exact absurd hpos (Nat.lt_irrefl 0)
  · cases htaken

/-- The regular expressions that are found to consume something do so in every input, if none of
them asks for a word to start. So repetitions of them come to an end. -/
theorem regexesEat_of_asksForNoWord (input : Input) {g : Grammar} (hword : g.AsksForNoWord) :
    RegexesEat input g fun id => Consumption.regexMatchesEmpty (g.shape id) = false := by
  intro id value ignoreCase multiLine raw htest hshape
  rw [hshape] at htest ⊢
  exact neverEmpty_of_not_asksForWord htest (hword id value ignoreCase multiLine raw hshape)

end Peg

end PegMachine
