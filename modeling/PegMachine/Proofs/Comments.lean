import Mathlib
import PegMachine.Proofs.Emitting

/-!
# Comments in emitted routines

Only comments of a routine hold what its rule, other rules, its parts and its expectations are
called, and only expectations are put on one line before. So each line that a routine is laid out in
is a line of source text, and names are read as comments, as long as no rule that is named there and
no part of the rule has a line feed in what it is called; each such line feed is a line more.
-/

namespace PegMachine

namespace Emit

/-! ## Reading source text -/

/-- Where in source text a reader is. -/
inductive Place where
  /-- Between comments and literals. -/
  | code
  /-- In a comment, which the line ends. -/
  | comment
  /-- In a string literal. -/
  | literal
  /-- In a string literal behind a backslash. -/
  | escape
  deriving DecidableEq, Repr

/-- What stands outside of comments and string literals in source text, for a reader who is at some
place. Comments leave the ends of their lines and literals leave their quotes. -/
def outsideFrom : Place → List Char → List Char
  | _, [] => []
  | .code, c :: rest =>
    if c = '/' ∧ rest.head? = some '/' then outsideFrom .comment rest
    else c :: outsideFrom (if c = '"' then .literal else .code) rest
  | .comment, c :: rest =>
    if c = '\n' then c :: outsideFrom .code rest else outsideFrom .comment rest
  | .literal, c :: rest =>
    if c = '"' then c :: outsideFrom .code rest
    else outsideFrom (if c = '\\' then .escape else .literal) rest
  | .escape, _ :: rest => outsideFrom .literal rest

/-- What stands outside of comments and string literals in source text. -/
def outside (text : String) : List Char := outsideFrom .code text.toList

example : outside "a(\"//\\\"\") // b\nc" = "a(\"\") \nc".toList := by decide +kernel

/-- The number of line feeds in a text. -/
def lineFeeds (text : String) : Nat := text.toList.count '\n'

theorem lineFeeds_append (a b : String) : lineFeeds (a ++ b) = lineFeeds a + lineFeeds b := by
  rw [lineFeeds, String.toList_append, List.count_append]
  rfl

theorem lineFeeds_eq_zero {text : String} : lineFeeds text = 0 ↔ '\n' ∉ text.toList :=
  List.count_eq_zero

/-- A text in which no comment, no literal and no line starts or ends. -/
def Bare (text : String) : Prop := ∀ c ∈ text.toList, c ≠ '/' ∧ c ≠ '"' ∧ c ≠ '\n'

instance (text : String) : Decidable (Bare text) :=
  -- The characters of the text are gone through, not all characters.
  List.decidableBAll (fun c => c ≠ '/' ∧ c ≠ '"' ∧ c ≠ '\n') text.toList

namespace Bare

theorem lineFeeds {text : String} (h : Bare text) : lineFeeds text = 0 :=
  lineFeeds_eq_zero.mpr fun hmem => (h _ hmem).2.2 rfl

/-- A reader outside of comments and literals stays there. -/
theorem outsideFrom_append {text : String} (h : Bare text) (rest : List Char) :
    outsideFrom .code (text.toList ++ rest) = text.toList ++ outsideFrom .code rest := by
  unfold Bare at h
  generalize text.toList = cs at h
  induction cs with
  | nil => rfl
  | cons c cs ih =>
    obtain ⟨⟨hslash, hquote, -⟩, hcs⟩ := List.forall_mem_cons.mp h
    rw [List.cons_append, outsideFrom, if_neg fun hc => hslash hc.1, if_neg hquote, ih hcs]
    rfl

end Bare

@[simp]
theorem bare_append {a b : String} : Bare (a ++ b) ↔ Bare a ∧ Bare b := by
  simp only [Bare, String.toList_append, List.forall_mem_append]

@[simp]
theorem bare_interpolated {text : String} : Bare (toString text) ↔ Bare text := Iff.rfl

@[simp]
theorem bare_repr (n : Nat) : Bare n.repr := by
  intro c hc
  have hdigit : c.isDigit = true := by
    rw [Nat.repr, String.toList_ofList] at hc
    exact Nat.isDigit_of_mem_toDigits (Nat.zero_lt_succ 9) (Nat.le_refl 10) hc
  refine ⟨?_, ?_, ?_⟩ <;> rintro rfl <;> revert hdigit <;> decide

/-- The characters of texts that are put together. -/
theorem mem_intercalate {separator : String} {items : List String} {c : Char}
    (h : c ∈ (separator.intercalate items).toList) :
    c ∈ separator.toList ∨ ∃ item ∈ items, c ∈ item.toList := by
  induction items with
  | nil => simp at h
  | cons first rest ih =>
    cases rest with
    | nil => exact .inr ⟨first, List.mem_singleton_self _, by simpa using h⟩
    | cons second rest =>
      rw [String.intercalate_cons_cons, String.toList_append, String.toList_append] at h
      rcases List.mem_append.mp h with h | h
      · rcases List.mem_append.mp h with h | h
        · exact .inr ⟨first, List.mem_cons_self, h⟩
        · exact .inl h
      · obtain h | ⟨item, hitem, h⟩ := ih h
        · exact .inl h
        · exact .inr ⟨item, List.mem_cons_of_mem _ hitem, h⟩

theorem bare_intercalate {separator : String} {items : List String} (hseparator : Bare separator)
    (hitems : ∀ item ∈ items, Bare item) : Bare (separator.intercalate items) := by
  intro c hc
  obtain hc | ⟨item, hitem, hc⟩ := mem_intercalate hc
  · exact hseparator c hc
  · exact hitems item hitem c hc

/-- A comment up to the end of a line, or none. -/
def IsNote (text : String) : Prop := text = "" ∨ ∃ words, text = "//" ++ words ∧ '\n' ∉ words.toList

theorem outsideFrom_comment {cs : List Char} (h : '\n' ∉ cs) (rest : List Char) :
    outsideFrom .comment (cs ++ '\n' :: rest) = '\n' :: outsideFrom .code rest := by
  induction cs with
  | nil => rfl
  | cons c cs ih =>
    rw [List.mem_cons, not_or] at h
    rw [List.cons_append, outsideFrom, if_neg (Ne.symm h.1), ih h.2]

/-- A reader comes out of a comment at the end of the line. -/
theorem IsNote.outsideFrom_append {text : String} (h : IsNote text) (rest : List Char) :
    outsideFrom .code (text.toList ++ '\n' :: rest) = '\n' :: outsideFrom .code rest := by
  rcases h with rfl | ⟨words, rfl, hwords⟩
  · rfl
  · have hcomment : '\n' ∉ '/' :: words.toList := by simp [hwords]
    have hsplit : ("//" ++ words).toList = '/' :: ('/' :: words.toList) := by simp
    rw [hsplit, List.cons_append, outsideFrom, if_pos ⟨rfl, rfl⟩, outsideFrom_comment hcomment]

/-! ## Lines -/

open Layout

theorem toList_written (l : Layout) :
    l.written.toList = (writtenFrom 0 l).flatMap fun text => text.toList ++ ['\n'] := by
  rw [written, String.toList_join, List.flatMap_map]
  exact List.flatMap_congr fun text _ => String.toList_append

/-- The characters of a text at a depth. -/
theorem toList_indented (d : Nat) (text : String) : (Line.indented d text).toList =
    (if text.isEmpty then [] else List.replicate (4 * d) ' ') ++ text.toList := by
  rw [Line.indented]
  split
  · rfl
  · rw [String.toList_append, String.toList_ofList]

/-- Written text has the ends of its lines and the line feeds in them. -/
theorem lineFeeds_written (l : Layout) :
    lineFeeds l.written = l.length + (l.map fun line => lineFeeds line.text).sum := by
  rw [lineFeeds, toList_written]
  generalize 0 = d
  induction l generalizing d with
  | nil => rfl
  | cons line rest ih =>
    have hblanks : (if line.text.isEmpty then [] else List.replicate (4 * line.depth d) ' ').count
        '\n' = 0 := by
      split
      · rfl
      · exact List.count_eq_zero.mpr fun h => absurd (List.eq_of_mem_replicate h) (by decide)
    rw [writtenFrom, List.flatMap_cons, List.count_append, ih, List.count_append, toList_indented,
      List.count_append, hblanks, List.length_cons, List.map_cons, List.sum_cons]
    change 0 + lineFeeds line.text + 1 + _ = _
    omega

/-- Lines that differ in their comments only. -/
inductive Agrees : Line → Line → Prop where
  /-- There are no comments. -/
  | same {line : Line} (h : Bare line.text) : Agrees line line
  /-- There are comments, or there are none in either line. -/
  | noted (code : String) {note note' : String} (hcode : Bare code) (hnote : IsNote note)
      (hnote' : IsNote note') (hempty : note = "" ↔ note' = "") :
      Agrees (.plain (code ++ note)) (.plain (code ++ note'))

theorem isNote_empty : IsNote "" := .inl rfl

/-- What is read of a line. -/
theorem outsideFrom_line {code note : String} (hcode : Bare code) (hnote : IsNote note) (d : Nat)
    (rest : List Char) :
    outsideFrom .code ((Line.indented d (code ++ note)).toList ++ ['\n'] ++ rest) =
      (if (code ++ note).isEmpty then [] else List.replicate (4 * d) ' ') ++ code.toList ++
        '\n' :: outsideFrom .code rest := by
  have hblanks : Bare (String.ofList
      (if (code ++ note).isEmpty then [] else List.replicate (4 * d) ' ')) := by
    intro c hc
    rw [String.toList_ofList] at hc
    split at hc
    · cases hc
    · rw [List.eq_of_mem_replicate hc]
      decide
  have hread := hblanks.outsideFrom_append (code.toList ++ (note.toList ++ '\n' :: rest))
  rw [String.toList_ofList, hcode.outsideFrom_append, hnote.outsideFrom_append] at hread
  simp only [toList_indented, String.toList_append, List.append_assoc, List.singleton_append, hread]

/-- Layouts that differ in comments only are written alike outside of them. -/
theorem outside_written {l l' : Layout} (h : List.Forall₂ Agrees l l') :
    outside l.written = outside l'.written := by
  rw [outside, outside, toList_written, toList_written]
  -- Comments do not open or close blocks, so each line is at the same depth in both.
  generalize 0 = d
  induction h generalizing d with
  | nil => rfl
  | cons hline _ ih =>
    rw [writtenFrom, writtenFrom, List.flatMap_cons, List.flatMap_cons]
    cases hline with
    | same hbare =>
      have hread := outsideFrom_line hbare isNote_empty
      simp only [String.append_empty] at hread
      rw [hread, hread, ih]
    | noted code hcode hnote hnote' hempty =>
      dsimp only [Line.depth, Line.depthAfter, Line.text]
      rw [outsideFrom_line hcode hnote, outsideFrom_line hcode hnote', ih]
      simp only [String.isEmpty_iff, String.append_eq_empty_iff, hempty]

/-! ## What comments say -/

theorem isWhiteSpace_lineFeed : Unicode.isWhiteSpace '\n' = true := by decide

/-- There is no white space in words. -/
theorem not_isWhiteSpace_of_mem_wordsFrom {current cs : List Char}
    (hcurrent : ∀ c ∈ current, Unicode.isWhiteSpace c = false) {word : List Char}
    (hword : word ∈ wordsFrom current cs) : ∀ c ∈ word, Unicode.isWhiteSpace c = false := by
  have hreverse : ∀ c ∈ current.reverse, Unicode.isWhiteSpace c = false :=
    fun c hc => hcurrent c (List.mem_reverse.mp hc)
  induction cs generalizing current with
  | nil =>
    rw [wordsFrom] at hword
    split at hword
    · cases hword
    · obtain rfl := List.mem_singleton.mp hword
      exact hreverse
  | cons c cs ih =>
    rw [wordsFrom] at hword
    split at hword
    · split at hword
      · exact ih (List.forall_mem_nil _) hword (List.forall_mem_nil _)
      · rcases List.mem_cons.mp hword with rfl | hword
        · exact hreverse
        · exact ih (List.forall_mem_nil _) hword (List.forall_mem_nil _)
    · next hc =>
      have hmore : ∀ d ∈ c :: current, Unicode.isWhiteSpace d = false :=
        List.forall_mem_cons.mpr ⟨Bool.eq_false_iff.mpr hc, hcurrent⟩
      exact ih hmore hword fun d hd => hmore d (List.mem_reverse.mp hd)

/-- A text is put on one line. -/
theorem lineFeeds_oneLine (text : String) : lineFeeds (oneLine text) = 0 := by
  refine lineFeeds_eq_zero.mpr fun hmem => ?_
  obtain hmem | ⟨item, hitem, hmem⟩ := mem_intercalate hmem
  · revert hmem
    decide
  · obtain ⟨word, hword, rfl⟩ := List.mem_map.mp hitem
    rw [String.toList_ofList] at hmem
    have hwhite := not_isWhiteSpace_of_mem_wordsFrom (List.forall_mem_nil _) hword _ hmem
    rw [isWhiteSpace_lineFeed] at hwhite
    cases hwhite

/-- What the rule of an expression is called, if it is the result of one. -/
def calledName? (p : Program) : Routine.Expr → Option String
  | .rule index => (p.rules[index]?).map (·.name)
  | _ => none

/-- The comment on an expression has the line feeds of the name of its rule. -/
theorem lineFeeds_comment (p : Program) (e : Routine.Expr) :
    lineFeeds (comment p e) = ((calledName? p e).toList.map lineFeeds).sum := by
  have hmark : lineFeeds " // " = 0 := by decide
  cases e with
  | fail c =>
    rw [comment]
    split
    · rw [lineFeeds_append, hmark, lineFeeds_oneLine]
      rfl
    · rfl
  | rule index =>
    rw [comment, calledName?]
    cases p.rules[index]? with
    | none => rfl
    | some r => simp [lineFeeds_append, hmark]
  | _ => rfl

end Emit

/-! ## Without names -/

/-- A constant without a description. -/
def Program.Constant.nameless : Program.Constant → Program.Constant
  | .expected e => .expected { e with description := "" }
  | c => c

/-- A program in which rules have empty names and expectations empty descriptions. -/
def Program.nameless (p : Program) : Program :=
  { p with
    rules := p.rules.map fun r => { r with name := "" }
    constants := p.constants.map Program.Constant.nameless }

/-- A routine with an empty name. -/
def Routine.nameless (r : Routine) : Routine := { r with name := "" }

theorem Program.expectation?_nameless (p : Program) (c : Nat) :
    p.nameless.expectation? c = (p.expectation? c).map fun e => { e with description := "" } := by
  unfold expectation? nameless
  dsimp only
  rw [Array.getElem?_map]
  rcases p.constants[c]? with _ | ⟨_ | _ | _⟩ <;> rfl

namespace Emit

open Layout

/-! ## Expressions and conditions -/

@[simp]
theorem bare_slotName (slot : Nat) : Bare (slotName slot) := by
  simp +decide [slotName]

@[simp]
theorem bare_slotCall {slot : Nat} {name : String} : Bare (slotCall slot name) ↔ Bare name := by
  simp +decide [slotCall]

@[simp]
theorem bare_stateCall {name argument : String} :
    Bare (stateCall name argument) ↔ Bare name ∧ Bare argument := by
  simp +decide [stateCall]

/-- No comment, literal or line starts or ends in a condition. -/
theorem bare_ofCond (c : Routine.Cond) : Bare (ofCond c) := by
  cases c <;> simp +decide [ofCond]

/-- No comment, literal or line starts or ends in an expression. -/
theorem bare_ofExpr (e : Routine.Expr) : Bare (ofExpr e) := by
  cases e with
  | wrap first n =>
    have hitems : Bare (", ".intercalate
        ((List.range n).map fun i => slotCall (first + i) "take")) :=
      bare_intercalate (by decide)
        (List.forall_mem_map.mpr fun _ _ => bare_slotCall.mpr (by decide))
    have hends : Bare "Slot::wrap(vec![" ∧ Bare "])" := by decide
    exact bare_append.mpr ⟨bare_append.mpr ⟨hends.1, hitems⟩, hends.2⟩
  | call action args =>
    have hitems : Bare (", ".intercalate (args.map fun s => slotCall s "to_value")) :=
      bare_intercalate (by decide)
        (List.forall_mem_map.mpr fun _ _ => bare_slotCall.mpr (by decide))
    have hends : Bare "call" ∧ Bare ", &[" ∧ Bare "]" ∧ Bare "?" := by decide
    -- To state the equations of `ofExpr` takes longer than to unfold it.
    delta ofExpr
    simp [hitems, hends]
  | _ =>
    delta ofExpr
    simp +decide

/-- Texts that differ in a comment at their ends only. -/
def AlikeToNote (text text' : String) : Prop :=
  ∃ code note note', Bare code ∧ IsNote note ∧ IsNote note' ∧ (note = "" ↔ note' = "") ∧
    text = code ++ note ∧ text' = code ++ note'

theorem alikeToNote_empty : AlikeToNote "" "" :=
  ⟨"", "", "", by decide, isNote_empty, isNote_empty, Iff.rfl, rfl, rfl⟩

theorem isNote_words {words : String} (h : '\n' ∉ words.toList) : IsNote ("// " ++ words) :=
  .inr ⟨" " ++ words, by rw [← String.append_assoc]; rfl, by simpa using h⟩

theorem alikeToNote_words {words words' : String} (h : '\n' ∉ words.toList)
    (h' : '\n' ∉ words'.toList) : AlikeToNote (" // " ++ words) (" // " ++ words') := by
  have hsplit (words : String) : " // " ++ words = " " ++ ("// " ++ words) := by
    rw [← String.append_assoc]
    rfl
  exact ⟨" ", "// " ++ words, "// " ++ words', by decide, isNote_words h, isNote_words h', by simp,
    hsplit words, hsplit words'⟩

theorem AlikeToNote.agrees {text text' : String} (h : AlikeToNote text text') {code : String}
    (hcode : Bare code) : Agrees (.plain (code ++ text)) (.plain (code ++ text')) := by
  obtain ⟨more, note, note', hmore, hnote, hnote', hempty, rfl, rfl⟩ := h
  rw [← String.append_assoc, ← String.append_assoc]
  exact .noted _ (bare_append.mpr ⟨hcode, hmore⟩) hnote hnote' hempty

/-- The comment on an expression is one, as long as its rule has no line feed in its name, also
where nothing has a name. -/
theorem comment_nameless (p : Program) (e : Routine.Expr)
    (h : ∀ name ∈ calledName? p e, '\n' ∉ name.toList) :
    AlikeToNote (comment p e) (comment p.nameless e) := by
  cases e with
  | fail c =>
    rw [comment, comment, Program.expectation?_nameless]
    cases p.expectation? c with
    | none => exact alikeToNote_empty
    | some e =>
      exact alikeToNote_words (lineFeeds_eq_zero.mp (lineFeeds_oneLine _))
        (lineFeeds_eq_zero.mp (lineFeeds_oneLine _))
  | rule index =>
    rw [comment, comment, Program.nameless]
    dsimp only
    rw [Array.getElem?_map]
    rw [calledName?] at h
    cases hr : p.rules[index]? with
    | none => exact alikeToNote_empty
    | some r => exact alikeToNote_words (h _ (by rw [hr]; rfl)) List.not_mem_nil
  | _ => exact alikeToNote_empty

/-! ## Statements -/

mutual

/-- The number of lines of a statement. -/
def linesOfStmt : Routine.Stmt → Nat
  | .branch _ held otherwise =>
    2 + linesOfStmts held + (if otherwise.isEmpty then 0 else 1 + linesOfStmts otherwise)
  | .loop _ body => 2 + linesOfStmts body
  | _ => 1

/-- The number of lines of some statements. -/
def linesOfStmts : List Routine.Stmt → Nat
  | [] => 0
  | s :: rest => linesOfStmt s + linesOfStmts rest

end

mutual

/-- The names of the rules that a statement uses the results of. -/
def namesOfStmt (p : Program) : Routine.Stmt → List String
  | .assign _ e => (calledName? p e).toList
  | .branch _ held otherwise => namesOfStmts p held ++ namesOfStmts p otherwise
  | .loop _ body => namesOfStmts p body
  | _ => []

/-- The names of the rules that some statements use the results of. -/
def namesOfStmts (p : Program) : List Routine.Stmt → List String
  | [] => []
  | s :: rest => namesOfStmt p s ++ namesOfStmts p rest

end

/-- A layout of so many lines, in which names are in comments only, next to what it is like without
names. -/
structure Commented (l l' : Layout) (lines : Nat) (names : List String) : Prop where
  length : l.length = lines
  feeds : (l.map fun line => lineFeeds line.text).sum = (names.map lineFeeds).sum
  agrees : (∀ name ∈ names, '\n' ∉ name.toList) → List.Forall₂ Agrees l l'

namespace Commented

variable {a a' b b' : Layout} {m n : Nat} {names others : List String}

theorem nil : Commented [] [] 0 [] := ⟨rfl, rfl, fun _ => .nil⟩

theorem append (ha : Commented a a' m names) (hb : Commented b b' n others) :
    Commented (a ++ b) (a' ++ b') (m + n) (names ++ others) where
  length := by rw [List.length_append, ha.length, hb.length]
  feeds := by
    rw [List.map_append, List.sum_append, ha.feeds, hb.feeds, List.map_append,
      List.sum_append]
  agrees h := List.rel_append (ha.agrees fun name hname => h name (List.mem_append_left _ hname))
    (hb.agrees fun name hname => h name (List.mem_append_right _ hname))

/-- A line without a comment. -/
theorem bare (line : Line) (h : Bare line.text) : Commented [line] [line] 1 [] :=
  ⟨rfl, by simp [h.lineFeeds], fun _ => .cons (.same h) .nil⟩

/-- Lines without comments. -/
theorem bares {lines : Layout} (h : ∀ line ∈ lines, Bare line.text) :
    Commented lines lines lines.length [] := by
  induction lines with
  | nil => exact nil
  | cons line rest ih =>
    obtain ⟨hline, hrest⟩ := List.forall_mem_cons.mp h
    have hall := (bare line hline).append (ih hrest)
    rwa [Nat.add_comm] at hall

/-- A comment. -/
theorem note (words words' : String)
    (hfeeds : lineFeeds words = (names.map lineFeeds).sum)
    (hfeeds' : lineFeeds words' = 0) :
    Commented [.plain ("//" ++ words)] [.plain ("//" ++ words')] 1 names where
  length := rfl
  feeds := by
    have hmark : lineFeeds "//" = 0 := by decide
    simp [Line.text, lineFeeds_append, hmark, hfeeds]
  agrees h := by
    have hnone : ∀ n ∈ names.map lineFeeds, n = 0 :=
      List.forall_mem_map.mpr fun name hname => lineFeeds_eq_zero.mpr (h name hname)
    have hwords : lineFeeds words = 0 := hfeeds.trans (List.sum_eq_zero_iff_forall_eq_nat.mpr hnone)
    have hagrees := Agrees.noted "" (by decide)
      (.inr ⟨words, rfl, lineFeeds_eq_zero.mp hwords⟩)
      (.inr ⟨words', rfl, lineFeeds_eq_zero.mp hfeeds'⟩) (by simp)
    rw [String.empty_append, String.empty_append] at hagrees
    exact .cons hagrees .nil

/-- A line that starts with a comment. -/
theorem note_append (mark words words' : String)
    (hmark : lineFeeds mark = 0) (hfeeds : lineFeeds words = (names.map lineFeeds).sum)
    (hfeeds' : lineFeeds words' = 0) :
    Commented [.plain ("//" ++ mark ++ words)] [.plain ("//" ++ mark ++ words')] 1 names := by
  rw [String.append_assoc, String.append_assoc]
  refine .note _ _ ?_ ?_
  · rw [lineFeeds_append, hmark, hfeeds, Nat.zero_add]
  · rw [lineFeeds_append, hmark, hfeeds']

theorem enclosed (h : Commented a a' n names) (first last : String) (hfirst : Bare first)
    (hlast : Bare last) :
    Commented (enclosed first a last) (Layout.enclosed first a' last) (2 + n) names := by
  have hall := ((bare (.opening first) hfirst).append h).append
    (bare (.closing last) hlast)
  rw [List.nil_append, List.append_nil, Nat.add_assoc, Nat.add_comm n 1, ← Nat.add_assoc] at hall
  exact hall

theorem braced (h : Commented a a' n names) (heading : String) (hheading : Bare heading) :
    Commented (braced heading a) (Layout.braced heading a') (2 + n) names :=
  h.enclosed _ _ (by simp +decide [hheading]) (by decide)

end Commented

mutual

/-- Names are in the comments of a statement only. -/
theorem commented_ofStmt (p : Program) : (s : Routine.Stmt) →
    Commented (ofStmt p s) (ofStmt p.nameless s) (linesOfStmt s) (namesOfStmt p s)
  | .assign slot e => by
    have hcode : Bare (slotName slot ++ " = " ++ ofExpr e ++ ";") := by
      simp +decide [bare_ofExpr]
    rw [ofStmt, ofStmt, namesOfStmt]
    refine ⟨rfl, ?_, fun h => ?_⟩
    · simp [Line.text, lineFeeds_append _ (comment p e), hcode.lineFeeds, lineFeeds_comment]
    · have halike := comment_nameless p e fun name hname => h name (Option.mem_toList.mpr hname)
      exact .cons (halike.agrees hcode) .nil
  | .restorePos s => .bare _ (by simp +decide [Line.text])
  | .loadSavedPos s => .bare _ (by simp +decide [Line.text])
  | .updateSavedPos => .bare _ (by decide)
  | .silentOn => .bare _ (by decide)
  | .silentOff => .bare _ (by decide)
  | .silentReset => .bare _ (by decide)
  | .append array item => .bare _ (by simp +decide [Line.text])
  | .branch c held otherwise => by
    have hopening : Bare (Line.opening ("if " ++ ofCond c ++ " \x7b")).text := by
      simp +decide [Line.text, bare_ofCond]
    have hclosing : Bare (Line.closing "\x7d").text := by decide
    have helse : Commented
        (if otherwise.isEmpty then [] else [.turning "\x7d else \x7b"] ++ ofStmts p otherwise)
        (if otherwise.isEmpty then [] else
          [.turning "\x7d else \x7b"] ++ ofStmts p.nameless otherwise)
        (if otherwise.isEmpty then 0 else 1 + linesOfStmts otherwise)
        (namesOfStmts p otherwise) := by
      cases otherwise with
      | nil => exact .nil
      | cons s rest => exact (Commented.bare _ (by decide)).append (commented_ofStmts p (s :: rest))
    have hall := (((Commented.bare _ hopening).append (commented_ofStmts p held)).append
      helse).append (Commented.bare _ hclosing)
    rw [ofStmt, ofStmt, linesOfStmt, namesOfStmt]
    rw [List.nil_append, List.append_nil] at hall
    convert hall using 1
    omega
  | .loop c body => by
    have hheading : Bare ("while " ++ ofCond c) := by simp +decide [bare_ofCond]
    simpa only [ofStmt, linesOfStmt, namesOfStmt] using
      (commented_ofStmts p body).braced _ hheading

/-- Names are in the comments of statements only. -/
theorem commented_ofStmts (p : Program) : (body : List Routine.Stmt) →
    Commented (ofStmts p body) (ofStmts p.nameless body) (linesOfStmts body) (namesOfStmts p body)
  | [] => .nil
  | s :: rest => (commented_ofStmt p s).append (commented_ofStmts p rest)

end

/-! ## Routines -/

theorem lineFeeds_intercalate {separator : String} (h : lineFeeds separator = 0)
    (items : List String) :
    lineFeeds (separator.intercalate items) = (items.map lineFeeds).sum := by
  induction items with
  | nil => rfl
  | cons first rest ih =>
    cases rest with
    | nil => simp
    | cons second rest =>
      rw [String.intercalate_cons_cons, lineFeeds_append, lineFeeds_append, h, ih]
      rfl

/-- The name of a rule, above its function. -/
theorem commented_name (name : String) :
    Commented [.plain ("/// `" ++ name ++ "`")] [.plain ("/// `" ++ "" ++ "`")] 1 [name] := by
  have hquote (name : String) : lineFeeds (name ++ "`") = lineFeeds name := by
    rw [lineFeeds_append]
    rfl
  have hfeeds : lineFeeds (name ++ "`") = ([name].map lineFeeds).sum := by simp [hquote]
  have hnote := Commented.note_append "/ `" (name ++ "`") ("" ++ "`") (by decide) hfeeds (hquote "")
  rwa [← String.append_assoc, ← String.append_assoc] at hnote

/-- The lines above a function that list parts, if there are any. -/
def partLines (parts : List String) : Layout :=
  if parts.isEmpty then [] else
    [.plain "///", .plain ("/// Parts: " ++ ", ".intercalate parts)]

/-- The parts of a rule, above its function. -/
theorem commented_partLines (parts : List String) :
    Commented (partLines parts) (partLines (parts.map fun _ => ""))
      (if parts.isEmpty then 0 else 2) parts := by
  have hempty : Commented [.plain "///"] [.plain "///"] 1 [] :=
    .note "/" "/" (by decide) (by decide)
  have hseparator : lineFeeds ", " = 0 := by decide
  have hfeeds' : ((parts.map fun _ => "").map lineFeeds).sum = 0 := by
    rw [List.map_map]
    exact List.sum_eq_zero_iff_forall_eq_nat.mpr (List.forall_mem_map.mpr fun _ _ => rfl)
  rw [partLines, partLines, List.isEmpty_map]
  split
  · next hparts =>
    rw [List.isEmpty_iff.mp hparts]
    exact .nil
  · exact hempty.append (.note_append "/ Parts: " _ _ (by decide)
      (lineFeeds_intercalate hseparator parts) ((lineFeeds_intercalate hseparator _).trans hfeeds'))

/-- The number of lines of a routine with some parts. -/
def linesOfRoutine (r : Routine) (parts : List String) : Nat :=
  (if parts.isEmpty then 1 else 3) + max r.slots 1 + linesOfStmts r.body + 6

/-- The names in the text of a routine. -/
def namesOfRoutine (p : Program) (r : Routine) (parts : List String) : List String :=
  (r.name :: parts) ++ namesOfStmts p r.body

/-- Names are in the comments of a routine only. -/
theorem commented_ofRoutine (p : Program) (r : Routine) (parts : List String) :
    Commented (ofRoutine p r parts) (ofRoutine p.nameless r.nameless (parts.map fun _ => ""))
      (linesOfRoutine r parts) (namesOfRoutine p r parts) := by
  let declarations : Layout := (List.range (max r.slots 1)).map fun i =>
    .plain ("let mut " ++ slotName i ++ " = Slot::Failed;")
  have hbare : ∀ line ∈ declarations, Bare line.text :=
    List.forall_mem_map.mpr fun i _ => by simp +decide [Line.text]
  have hbody := ((Commented.bares hbare).append (commented_ofStmts p r.body)).append
    (Commented.bare (.plain "Ok(s0)") (by decide))
  have hname : Bare "fn rule_" := by decide
  have hresult : Bare "(state: &mut ParserState<'_>) -> Result<Slot, ParseFailure>" := by
    decide +kernel
  have hfunction := (hbody.enclosed s!"state.rule({r.rule}, |state| \x7b" "\x7d)" (by simp +decide)
    (by decide)).braced
      s!"fn rule_{r.rule}(state: &mut ParserState<'_>) -> Result<Slot, ParseFailure>"
      (by simp [hname, hresult])
  have hall := ((((commented_name r.name).append (commented_partLines parts)).append
    hfunction).append (Commented.bare blank (by decide)))
  rw [List.nil_append, List.append_nil, List.append_nil] at hall
  have hlines : linesOfRoutine r parts = 1 + (if parts.isEmpty then 0 else 2) +
      (2 + (2 + (declarations.length + linesOfStmts r.body + 1))) + 1 := by
    rw [linesOfRoutine, List.length_map, List.length_range]
    split <;> omega
  rw [hlines]
  exact hall

/-! ## Routines in source text -/

mutual

theorem balanced_ofStmt (p : Program) : (s : Routine.Stmt) → (ofStmt p s).Balanced
  | .branch c held otherwise => by
    have hinner (d : Nat) : leaves (d + 1) (ofStmts p held ++ if otherwise.isEmpty then [] else
        [.turning "\x7d else \x7b"] ++ ofStmts p otherwise) = d + 1 := by
      rw [leaves_append, balanced_ofStmts p held]
      split
      · rfl
      · exact balanced_ofStmts p otherwise (d + 1)
    rw [ofStmt, List.append_assoc _ (ofStmts p held)]
    exact balanced_enclosed hinner _ _
  | .loop c body => (balanced_ofStmts p body).braced _
  | .assign .. => fun _ => rfl
  | .restorePos _ => fun _ => rfl
  | .loadSavedPos _ => fun _ => rfl
  | .updateSavedPos => fun _ => rfl
  | .silentOn => fun _ => rfl
  | .silentOff => fun _ => rfl
  | .silentReset => fun _ => rfl
  | .append .. => fun _ => rfl

theorem balanced_ofStmts (p : Program) : (body : List Routine.Stmt) → (ofStmts p body).Balanced
  | [] => fun _ => rfl
  | s :: rest => (balanced_ofStmt p s).append (balanced_ofStmts p rest)

end

theorem balanced_ofRoutine (p : Program) (r : Routine) (parts : List String) :
    (ofRoutine p r parts).Balanced := by
  have hheading : (routineHeading r.name parts).Balanced := by
    unfold routineHeading
    split <;> exact fun _ => rfl
  have hdeclarations : ∀ n, Balanced ((List.range n).map fun i =>
      .plain ("let mut " ++ slotName i ++ " = Slot::Failed;")) := fun n => balanced_plain _ _
  refine (hheading.append (.braced (.enclosed ?_ _ _) _)).append fun _ => rfl
  exact ((hdeclarations _).append (balanced_ofStmts p r.body)).append fun _ => rfl

/-- The text of a fast parser ends in the texts of the routines. -/
theorem written_routineLayout (g : Grammar) (f : Facts) (P : Program) (rs : List Routine) :
    ∃ front, (routineLayout g f P rs).written =
      front ++ String.join (rs.map fun r => (ofRoutine P r (partNames g f r.rule)).written) := by
  have hdispatch : (dispatchFunction rs).Balanced :=
    .braced (.braced (.append (balanced_plain _ _) fun _ => rfl) _) _
  let body : Layout :=
    [.plain ("let mut state = "
        ++ "ParserState::new(input, program, &mut actions, tracer, statistics);"),
      .plain "let result = rule(&mut state, start)?;", .plain "state.finish(result)"]
  let front : Layout := commonPart g P "inline" false ++ runFunction body ++ [blank] ++
    dispatchFunction rs ++ [blank]
  have hrun : (runFunction body).Balanced := .braced (fun _ => rfl) _
  have hfront : front.Balanced := ((((balanced_commonPart g P "inline" false).append hrun).append
    fun _ => rfl).append hdispatch).append fun _ => rfl
  refine ⟨front.written, hfront.written_append.trans (congrArg (front.written ++ ·) ?_)⟩
  exact written_flatMap fun r _ => balanced_ofRoutine P r (partNames g f r.rule)

end Emit

/-- Where a compilation is asked for the source of a fast parser, that ends in the texts of its
routines. The text of each has the lines that its statements and slots make, and as many more as
there are line feeds in what the rule, its parts and the rules whose results it uses are called. If
there are none, then what is read of the text outside of comments and string literals is what would
be read if nothing had a name or a description. -/
theorem compile_comments {g : Grammar} {options : Options} {listeners : Nat} {compiled : Compiled}
    {s : Session} (h : compile g options listeners = (.ok compiled, s))
    (hwants : options.output.wants .source = true) (hspeed : options.optimize = .speed) :
    ∃ P rs front, s.program = some P ∧ P.routines = .ok rs ∧
      compiled.source = some (front ++ String.join (rs.toList.map fun r =>
        (Emit.ofRoutine P r (Emit.partNames s.grammar s.facts r.rule)).written)) ∧
      ∀ r ∈ rs,
        let parts := Emit.partNames s.grammar s.facts r.rule
        let names := Emit.namesOfRoutine P r parts
        let text := (Emit.ofRoutine P r parts).written
        Emit.lineFeeds text = Emit.linesOfRoutine r parts + (names.map Emit.lineFeeds).sum ∧
        ((∀ name ∈ names, '\n' ∉ name.toList) → Emit.outside text = Emit.outside
          (Emit.ofRoutine P.nameless r.nameless (parts.map fun _ => "")).written) := by
  obtain ⟨P, text, hP, htext, hsource⟩ := emits_of_compile h hwants
  rw [hspeed] at htext
  obtain ⟨rs, hrs, rfl⟩ := Emit.source_speed_eq_ok htext
  obtain ⟨front, hfront⟩ := Emit.written_routineLayout s.grammar s.facts P rs.toList
  refine ⟨P, rs, front, hP, hrs, hsource.trans (congrArg some hfront), fun r _ => ?_⟩
  have hcommented := Emit.commented_ofRoutine P r (Emit.partNames s.grammar s.facts r.rule)
  refine ⟨?_, fun hnames => Emit.outside_written (hcommented.agrees hnames)⟩
  rw [Emit.lineFeeds_written, hcommented.length, hcommented.feeds]

/-- Characters of a class that is described over two lines, where no name has a line feed. -/
def linedClass : GrammarSource where
  rules := [
    ⟨"start", .of (.sequence [.of (.labeled (some "first") (.of (.ruleRef "digit"))), .of .any]),
      [], none⟩,
    ⟨"digit", .of (.named "a digit" (.of (.charClass [.range '0' '9', .char '\n'] false false
      "[0-9\n]"))), [], none⟩]

/-- Its routines have as many lines as their statements and slots make, and without the names the
same is read of them. -/
theorem linedClass_comments :
    let options : Options := { output := .single .source, optimize := .speed }
    let s := (compile (.ofSource linedClass) options 0).2
    ∃ P rs, s.program = some P ∧ P.routines = .ok rs ∧
      (rs.toList.map fun r => (r.name, Emit.partNames s.grammar s.facts r.rule,
        r.slots, Emit.linesOfStmts r.body)) =
          [("start", ["first"], 3, 19), ("digit", ["a digit"], 1, 10)] ∧
      ∀ r ∈ rs,
        let parts := Emit.partNames s.grammar s.facts r.rule
        let text := (Emit.ofRoutine P r parts).written
        Emit.lineFeeds text = Emit.linesOfRoutine r parts ∧ Emit.outside text = Emit.outside
          (Emit.ofRoutine P.nameless r.nameless (parts.map fun _ => "")).written := by
  intro options s
  have hok : (compile (.ofSource linedClass) options 0).1.isOk = true := by decide +kernel
  have hroutines : (s.program.bind fun P => P.routines.toOption.map fun rs =>
      (rs.toList.map fun r => (r.name, Emit.partNames s.grammar s.facts r.rule, r.slots,
        Emit.linesOfStmts r.body))) =
      some [("start", ["first"], 3, 19), ("digit", ["a digit"], 1, 10)] := by
    decide +kernel
  have hnames : (s.program.all fun P => P.routines.toOption.all fun rs =>
      decide (∀ r ∈ rs.toList, ∀ name ∈ Emit.namesOfRoutine P r
        (Emit.partNames s.grammar s.facts r.rule), '\n' ∉ name.toList)) = true := by
    decide +kernel
  obtain ⟨compiled, hcompile⟩ := exists_compiled hok
  obtain ⟨P, rs, front, hP, hrs, -, htexts⟩ := compile_comments hcompile rfl rfl
  rw [hP, Option.bind_some, hrs] at hroutines
  rw [hP, Option.all_some, hrs] at hnames
  have hplain := of_decide_eq_true hnames
  refine ⟨P, rs, hP, hrs, Option.some.inj hroutines, fun r hr => ?_⟩
  obtain ⟨hlines, houtside⟩ := htexts r hr
  have hnone := hplain r (Array.mem_def.mp hr)
  refine ⟨hlines.trans ?_, houtside hnone⟩
  rw [List.sum_eq_zero_iff_forall_eq_nat.mpr (List.forall_mem_map.mpr fun name hname =>
    Emit.lineFeeds_eq_zero.mpr (hnone name hname)), Nat.add_zero]

end PegMachine
