import PegMachine.Location.Tracker

/-!
# Positions do not depend on history

Reading some bytes of a text, leap by leap, makes of a mark what the characters that begin there
make of it one after another. So a tracker that has read some of an input finds every position
where one that starts from scratch finds it: what is left of the character read last adds nothing,
the characters behind it follow those before, and for an earlier offset the tracker starts over.
-/

namespace PegMachine

namespace Text

@[simp] theorem bytes_cons (c : Char) (cs : List Char) :
    bytes (c :: cs) = String.utf8EncodeChar c ++ bytes cs := List.flatMap_cons

/-- A byte that no character begins with ends no line. -/
theorem mayEndLine_of_isLead {b : UInt8} (h : isLead b = false) : mayEndLine b = false := by
  have hends : ¬ mayEndLine b = true := by
    intro hb
    simp only [mayEndLine, Bool.or_eq_true, beq_iff_eq] at hb
    rcases hb with (rfl | rfl) | rfl <;> exact absurd h (by decide)
  simpa using hends

theorem isLead_ofNat {n : Nat} (h : n < 256) :
    isLead (UInt8.ofNat n) = (n < 0x80 || 0xC0 ≤ n) := by
  have hall : ∀ i : Fin 256, isLead (UInt8.ofNat i) = (i.val < 0x80 || 0xC0 ≤ i.val) := by
    decide +kernel
  exact hall ⟨n, h⟩

theorem charSize_ofNat {n : Nat} (h : n < 256) :
    charSize (UInt8.ofNat n) = if n < 0x80 then 1 else if n < 0xE0 then 2
      else if n < 0xF0 then 3 else 4 := by
  have hall : ∀ i : Fin 256, charSize (UInt8.ofNat i) = if i.val < 0x80 then 1
      else if i.val < 0xE0 then 2 else if i.val < 0xF0 then 3 else 4 := by
    decide +kernel
  exact hall ⟨n, h⟩

theorem isLead_follow (n : Nat) : isLead (UInt8.ofNat (n % 64 + 128)) = false := by
  rw [isLead_ofNat (by omega)]
  grind

/-- A character is its first byte and bytes that no character begins with. -/
theorem exists_lead (c : Char) : ∃ b follow, String.utf8EncodeChar c = b :: follow ∧
    isLead b = true ∧ charSize b = follow.length + 1 ∧ ∀ x ∈ follow, isLead x = false := by
  fun_cases String.utf8EncodeChar c with
  | case1 v h =>
    refine ⟨_, _, rfl, ?_, ?_, by simp⟩
    · rw [isLead_ofNat (by omega)]
      grind
    · rw [charSize_ofNat (by omega), if_pos (by omega), List.length_nil]
  | case2 v h₁ h =>
    refine ⟨_, _, rfl, ?_, ?_, by simp [isLead_follow, -UInt8.ofNat_add]⟩
    · rw [isLead_ofNat (by omega)]
      grind
    · rw [charSize_ofNat (by omega), if_neg (by omega), if_pos (by omega)]
      rfl
  | case3 v h₁ h₂ h =>
    refine ⟨_, _, rfl, ?_, ?_, by simp [isLead_follow, -UInt8.ofNat_add]⟩
    · rw [isLead_ofNat (by omega)]
      grind
    · rw [charSize_ofNat (by omega), if_neg (by omega), if_neg (by omega), if_pos (by omega)]
      rfl
  | case4 v h₁ h₂ h₃ =>
    refine ⟨_, _, rfl, ?_, ?_, by simp [isLead_follow, -UInt8.ofNat_add]⟩
    · rw [isLead_ofNat (by omega)]
      grind
    · rw [charSize_ofNat (by omega), if_neg (by omega), if_neg (by omega), if_neg (by omega)]
      rfl

theorem utf8EncodeChar_inj {c d : Char} (h : String.utf8EncodeChar c = String.utf8EncodeChar d) :
    c = d := by
  have hc : ((String.utf8EncodeChar c).toByteArray ++ ByteArray.empty).utf8DecodeChar? 0 = some c :=
    ByteArray.utf8DecodeChar?_utf8EncodeChar_append
  rw [h, ByteArray.utf8DecodeChar?_utf8EncodeChar_append] at hc
  exact (Option.some.inj hc).symm

/-- A character of one byte is known by it. -/
theorem eq_of_lead {c d : Char} {b : UInt8} {follow : List UInt8}
    (h : String.utf8EncodeChar c = b :: follow) (hsize : charSize b = 1)
    (hd : String.utf8EncodeChar d = [b]) : c = d := by
  obtain ⟨b', follow', heq, -, hlength, -⟩ := exists_lead c
  obtain ⟨rfl, rfl⟩ := List.cons.inj (h.symm.trans heq)
  have hfollow : follow = [] := List.length_eq_zero_iff.mp (by omega)
  exact utf8EncodeChar_inj (by rw [h, hd, hfollow])

end Text

namespace Mark

/-- The mark after one more character. -/
def next (m : Mark) (c : Char) : Mark :=
  if c = '\n' then m.lineFeed
  else if c = '\r' then m.carriageReturn
  else if c = '\u2028' ∨ c = '\u2029' then m.separator
  else m.along 1

/-- The leap over a character with whose first byte a line may end. -/
theorem pass_eq_next {c : Char} {b : UInt8} {follow : List UInt8}
    (h : String.utf8EncodeChar c = b :: follow) (hb : Text.mayEndLine b = true) (m : Mark)
    (bs : List UInt8) : m.pass b (String.utf8EncodeChar c ++ bs) = m.next c := by
  simp only [Text.mayEndLine, Bool.or_eq_true, beq_iff_eq] at hb
  rcases hb with (rfl | rfl) | rfl
  · rw [Text.eq_of_lead h (by decide) (d := '\n') (by decide)]
    rfl
  · rw [Text.eq_of_lead h (by decide) (d := '\r') (by decide)]
    rfl
  · have hlength : (String.utf8EncodeChar c).length = 3 := by
      obtain ⟨b, follow', heq, -, hlength, -⟩ := Text.exists_lead c
      obtain ⟨rfl, rfl⟩ := List.cons.inj (h.symm.trans heq)
      rw [h, List.length_cons, ← hlength]
      decide
    have hprefix : ∀ d : Char, (String.utf8EncodeChar d).length = 3 →
        ((Text.bytes [d]).isPrefixOf (String.utf8EncodeChar c ++ bs) = true ↔ c = d) := by
      intro d hd
      rw [Text.bytes_cons, List.isPrefixOf_iff_prefix, Text.bytes, List.flatMap_nil,
        List.append_nil]
      constructor
      · rintro ⟨tail, htail⟩
        exact (Text.utf8EncodeChar_inj (List.append_inj htail (hd.trans hlength.symm)).1).symm
      · rintro rfl
        exact List.prefix_append _ _
    have hn : c ≠ '\n' := by rintro rfl; exact absurd hlength (by decide)
    have hr : c ≠ '\r' := by rintro rfl; exact absurd hlength (by decide)
    rw [pass, if_neg (by decide), if_neg (by decide), next, if_neg hn, if_neg hr]
    simp only [Bool.or_eq_true, hprefix '\u2028' (by decide), hprefix '\u2029' (by decide)]

/-- A character with whose first byte no line may end leads on along the line. -/
theorem next_eq_along {c : Char} {b : UInt8} {follow : List UInt8}
    (h : String.utf8EncodeChar c = b :: follow) (hb : Text.mayEndLine b = false) (m : Mark) :
    m.next c = m.along 1 := by
  have hne : ∀ d b' follow', String.utf8EncodeChar d = b' :: follow' →
      Text.mayEndLine b' = true → c ≠ d := by
    rintro d b' follow' hd hb' rfl
    obtain ⟨rfl, -⟩ := List.cons.inj (h.symm.trans hd)
    exact Bool.false_ne_true (hb.symm.trans hb')
  rw [next, if_neg (hne '\n' _ _ rfl (by decide)), if_neg (hne '\r' _ _ rfl (by decide)),
    if_neg (not_or_intro (hne '\u2028' _ _ rfl (by decide)) (hne '\u2029' _ _ rfl (by decide)))]

@[simp] theorem read_nil (leaps : Nat) (tail : List UInt8) (m : Mark) :
    m.read leaps [] tail = m := by
  cases leaps <;> rfl

theorem skip_append (m : Mark) (xs ys : List UInt8) : (m.skip xs).skip ys = m.skip (xs ++ ys) := by
  simp only [skip, along, List.countP_append, Nat.add_assoc]

/-- Bytes with which no line ends are read at one go. -/
theorem read_append {leaps : Nat} (hleaps : 0 < leaps) {xs : List UInt8}
    (h : ∀ b ∈ xs, Text.mayEndLine b = false) (hne : xs ≠ []) (part tail : List UInt8) (m : Mark) :
    m.read leaps (xs ++ part) (xs ++ tail) = (m.skip xs).read leaps part tail := by
  obtain ⟨leaps, rfl⟩ := Nat.exists_eq_succ_of_ne_zero (Nat.ne_of_gt hleaps)
  have hpos : 0 < xs.length := List.length_pos_iff.mpr hne
  have hnone : xs.findIdx? Text.mayEndLine = none := List.findIdx?_eq_none_iff.mpr h
  have hempty : (xs ++ part).isEmpty = false := by simp [hne]
  rw [read, read, hempty, List.findIdx?_append, hnone, Option.none_or]
  cases part with
  | nil => simp
  | cons y ys =>
    cases hfind : (y :: ys).findIdx? Text.mayEndLine with
    | none => simp [skip_append]
    | some i =>
      have hskip : (if 0 < i then (m.skip xs).skip ((y :: ys).take i) else m.skip xs) =
          m.skip (xs ++ (y :: ys).take i) := by
        split
        · exact skip_append m xs _
        · next hi => rw [Nat.eq_zero_of_not_pos hi, List.take_zero, List.append_nil]
      have hgo : 0 < xs.length + i := Nat.add_pos_left hpos i
      simp only [Option.map_some, Bool.false_eq_true, if_false, List.isEmpty_cons, hskip,
        if_pos hgo, Nat.add_comm i, Nat.add_assoc, List.take_length_add_append,
        List.drop_length_add_append]

/-- So is any part of them. -/
theorem read_take {leaps n : Nat} (hleaps : 0 < leaps) (hn : 0 < n) {xs : List UInt8}
    (h : ∀ b ∈ xs, Text.mayEndLine b = false) (hne : xs ≠ []) (bs : List UInt8) (m : Mark) :
    m.read leaps ((xs ++ bs).take n) (xs ++ bs) =
      (m.skip (xs.take n)).read leaps (bs.take (n - xs.length)) bs := by
  have hpart : ∀ b ∈ xs.take n, Text.mayEndLine b = false :=
    fun b hb => h b (List.mem_of_mem_take hb)
  have hpart_ne : xs.take n ≠ [] := by
    rw [Ne, List.take_eq_nil_iff]
    exact not_or_intro (Nat.ne_of_gt hn) hne
  have htail : xs ++ bs = xs.take n ++ (xs.drop n ++ bs) := by
    rw [← List.append_assoc, List.take_append_drop]
  rw [List.take_append, htail, read_append hleaps hpart hpart_ne]
  rcases Nat.le_total n xs.length with hle | hle
  · rw [Nat.sub_eq_zero_of_le hle, List.take_zero, read_nil, read_nil]
  · rw [List.drop_eq_nil_of_le hle, List.nil_append]

theorem skip_cons {b : UInt8} (hb : Text.isLead b = true) {follow : List UInt8}
    (h : ∀ x ∈ follow, Text.isLead x = false) (m : Mark) : m.skip (b :: follow) = m.along 1 := by
  have hcount : follow.countP Text.isLead = 0 :=
    List.countP_eq_zero.mpr fun x hx => by simp [h x hx]
  rw [skip, List.countP_cons_of_pos hb, hcount]

/-- Bytes that no character begins with add nothing, unless a line feed might have followed. -/
theorem skip_follow {m : Mark} (hm : m.afterReturn = false) {follow : List UInt8}
    (h : ∀ x ∈ follow, Text.isLead x = false) : m.skip follow = m := by
  have hcount : follow.countP Text.isLead = 0 :=
    List.countP_eq_zero.mpr fun x hx => by simp [h x hx]
  rw [skip, hcount, along, Nat.add_zero, ← hm]

section Char

variable {c : Char} {b : UInt8} {follow : List UInt8} {leaps n : Nat}

/-- A character with whose first byte a line may end is passed in one leap. -/
theorem read_leap (h : String.utf8EncodeChar c = b :: follow) (hb : Text.mayEndLine b = true)
    (hn : 0 < n) (bs : List UInt8) (m : Mark) :
    m.read (leaps + 1) ((String.utf8EncodeChar c ++ bs).take n) (String.utf8EncodeChar c ++ bs) =
      (m.next c).read leaps (bs.take (n - c.utf8Size)) bs := by
  obtain ⟨n, rfl⟩ := Nat.exists_eq_succ_of_ne_zero (Nat.ne_of_gt hn)
  obtain ⟨b', follow', heq, -, hcharSize, -⟩ := Text.exists_lead c
  obtain ⟨rfl, rfl⟩ := List.cons.inj (h.symm.trans heq)
  have hsize : c.utf8Size = follow.length + 1 := by
    rw [← String.length_utf8EncodeChar, h, List.length_cons]
  have hpass := pass_eq_next h hb m bs
  rw [h, List.cons_append] at hpass ⊢
  have hfind : (b :: (follow ++ bs).take n).findIdx? Text.mayEndLine = some 0 := by
    rw [List.findIdx?_cons, if_pos hb]
  simp only [read, List.take_succ_cons, List.isEmpty_cons, Bool.false_eq_true, if_false, hfind,
    Nat.lt_irrefl, List.drop_zero, hpass, hcharSize, hsize, Nat.zero_add, List.drop_succ_cons,
    List.drop_take, List.drop_left, Nat.succ_eq_add_one, Nat.add_sub_add_right]

/-- A character with whose first byte no line may end is passed together with what follows. -/
theorem read_along (h : String.utf8EncodeChar c = b :: follow) (hb : Text.mayEndLine b = false)
    (hn : 0 < n) (hleaps : 0 < leaps) (bs : List UInt8) (m : Mark) :
    m.read leaps ((String.utf8EncodeChar c ++ bs).take n) (String.utf8EncodeChar c ++ bs) =
      (m.next c).read leaps (bs.take (n - c.utf8Size)) bs := by
  obtain ⟨b', follow', heq, hlead, -, hfollow⟩ := Text.exists_lead c
  obtain ⟨rfl, rfl⟩ := List.cons.inj (h.symm.trans heq)
  have hnone : ∀ x ∈ b :: follow, Text.mayEndLine x = false :=
    List.forall_mem_cons.mpr ⟨hb, fun x hx => Text.mayEndLine_of_isLead (hfollow x hx)⟩
  have hskip : m.skip ((b :: follow).take n) = m.next c := by
    obtain ⟨n, rfl⟩ := Nat.exists_eq_succ_of_ne_zero (Nat.ne_of_gt hn)
    rw [next_eq_along h hb, List.take_succ_cons,
      skip_cons hlead fun x hx => hfollow x (List.mem_of_mem_take hx)]
  rw [← String.length_utf8EncodeChar, h, read_take hleaps hn hnone (List.cons_ne_nil b follow),
    hskip]

end Char

/-- Reading bytes of a text passes the characters that begin in them. -/
theorem read_bytes {leaps n : Nat} (h : n ≤ leaps) (cs : List Char) (m : Mark) :
    m.read leaps ((Text.bytes cs).take n) (Text.bytes cs) = (Text.takeBytes n cs).foldl next m := by
  induction cs generalizing leaps n m with
  | nil => simp [Text.bytes, Text.takeBytes]
  | cons c cs ih =>
    obtain rfl | hn := Nat.eq_zero_or_pos n
    · simp [Text.takeBytes]
    have hpos := c.utf8Size_pos
    obtain ⟨b, follow, hc, -⟩ := Text.exists_lead c
    rw [Text.takeBytes, if_neg (Nat.ne_of_gt hn), List.foldl_cons, Text.bytes_cons]
    cases hb : Text.mayEndLine b with
    | true =>
      obtain ⟨leaps, rfl⟩ := Nat.exists_eq_succ_of_ne_zero (by omega : leaps ≠ 0)
      rw [read_leap hc hb hn, ih (by omega)]
    | false => rw [read_along hc hb hn (by omega), ih (by omega)]

theorem next_afterReturn (m : Mark) (c : Char) : (m.next c).afterReturn = decide (c = '\r') := by
  rw [next]
  split
  · next h => rw [h]; rfl
  · split
    · next h => rw [h]; rfl
    · next h => split <;> exact (decide_eq_false h).symm

/-- Behind some bytes of a text there is what is left of the character read last, and the
characters that later offsets add. -/
theorem exists_drop_bytes (n : Nat) (cs : List Char) (m : Mark) : ∃ gap after,
    (Text.bytes cs).drop n = gap ++ Text.bytes after ∧ (∀ b ∈ gap, Text.isLead b = false) ∧
      (gap ≠ [] → ((Text.takeBytes n cs).foldl next m).afterReturn = false) ∧
      ∀ k, Text.takeBytes (n + k) cs =
        Text.takeBytes n cs ++ Text.takeBytes (k - gap.length) after := by
  induction cs generalizing n m with
  | nil => exact ⟨[], [], by simp [Text.bytes], by simp, by simp, fun k => rfl⟩
  | cons c cs ih =>
    obtain rfl | hn := Nat.eq_zero_or_pos n
    · exact ⟨[], c :: cs, rfl, by simp, by simp, fun k => by simp [Text.takeBytes]⟩
    have htake : ∀ k, Text.takeBytes (n + k) (c :: cs) =
        c :: Text.takeBytes (n + k - c.utf8Size) cs := fun k => by
      rw [Text.takeBytes, if_neg (by omega)]
    have hsize := String.length_utf8EncodeChar c
    rcases Nat.lt_or_ge n c.utf8Size with hlt | hge
    · -- The text is cut inside the character, which has more than one byte then.
      obtain ⟨b, follow, hc, -, -, hfollow⟩ := Text.exists_lead c
      obtain ⟨n, rfl⟩ := Nat.exists_eq_succ_of_ne_zero (Nat.ne_of_gt hn)
      have hlength : c.utf8Size = follow.length + 1 := by rw [← hsize, hc, List.length_cons]
      have hreturn : c ≠ '\r' := by
        rintro rfl
        have : follow.length + 1 = 1 := hlength.symm
        omega
      have hcut : Text.takeBytes (n + 1) (c :: cs) = [c] := by
        have := htake 0
        rw [Nat.add_zero, Nat.sub_eq_zero_of_le (Nat.le_of_lt hlt)] at this
        cases cs <;> exact this
      have hgap : ∀ x ∈ follow.drop n, Text.isLead x = false :=
        fun x hx => hfollow x (List.mem_of_mem_drop hx)
      refine ⟨follow.drop n, cs, ?_, hgap, ?_, fun k => ?_⟩
      · rw [Text.bytes_cons, hc, List.cons_append, List.drop_succ_cons, List.drop_append,
          Nat.sub_eq_zero_of_le (by omega), List.drop_zero]
      · rw [hcut]
        exact fun _ => (next_afterReturn m c).trans (decide_eq_false hreturn)
      · rw [htake, hcut, List.length_drop, List.singleton_append]
        congr 2
        omega
    · obtain ⟨gap, after, hdrop, hgap, hreturn, hlater⟩ := ih (n - c.utf8Size) (m.next c)
      refine ⟨gap, after, ?_, hgap, ?_, fun k => ?_⟩
      · rw [Text.bytes_cons, List.drop_append, hsize, List.drop_eq_nil_of_le (by omega),
          List.nil_append, hdrop]
      · have := htake 0
        rw [Nat.add_zero] at this
        rwa [this, List.foldl_cons]
      · have := htake 0
        rw [Nat.add_zero] at this
        rw [htake, this, List.cons_append, ← hlater, Nat.sub_add_comm hge]

/-- Reading on takes up where reading stopped. -/
theorem read_drop {a b : Nat} (h : a ≤ b) (cs : List Char) (m : Mark) :
    ((Text.takeBytes a cs).foldl next m).read (b - a) (((Text.bytes cs).drop a).take (b - a))
      ((Text.bytes cs).drop a) = (Text.takeBytes b cs).foldl next m := by
  obtain ⟨gap, after, hdrop, hgap, hreturn, hlater⟩ := exists_drop_bytes a cs m
  have hstop := hlater (b - a)
  rw [Nat.add_sub_cancel' h] at hstop
  rw [hdrop, hstop, List.foldl_append]
  obtain hzero | hpos := Nat.eq_zero_or_pos (b - a)
  · rw [hzero, Nat.zero_sub]
    cases after <;> rfl
  by_cases hne : gap = []
  · rw [hne, List.nil_append, List.length_nil, Nat.sub_zero, read_bytes (Nat.le_refl _)]
  · rw [read_take hpos hpos (fun x hx => Text.mayEndLine_of_isLead (hgap x hx)) hne,
      skip_follow (hreturn hne) fun x hx => hgap x (List.mem_of_mem_take hx),
      read_bytes (Nat.sub_le _ _)]

end Mark

namespace Tracker

/-- A tracker has read an input up to its offset. -/
structure Reads (t : Tracker) (input : Input) : Prop where
  bytes : t.bytes = Text.bytes input.chars
  size : t.size = input.size
  rest : t.rest = (Text.bytes input.chars).drop t.offset
  mark : t.mark = (Text.takeBytes t.offset input.chars).foldl Mark.next .start

variable {t : Tracker} {input : Input}

theorem reads_ofInput (input : Input) : (ofInput input).Reads input := by
  refine ⟨rfl, rfl, rfl, ?_⟩
  cases h : input.chars <;> simp only [ofInput, h] <;> rfl

theorem Reads.rewind (h : t.Reads input) : t.rewind.Reads input := by
  refine ⟨h.bytes, h.size, h.bytes, ?_⟩
  exact (reads_ofInput input).mark

/-- The position that a tracker finds is that behind the characters that begin before it, and the
tracker has read the input up to there afterwards. -/
theorem Reads.position_eq (h : t.Reads input) (offset : Nat) :
    (t.position offset).1 =
        (let mark := (Text.takeBytes (min offset input.size) input.chars).foldl Mark.next .start
        ⟨min offset input.size, mark.line, mark.column⟩) ∧
      (t.position offset).2.Reads input := by
  have hread : ∀ u : Tracker, u.Reads input → u.offset ≤ min offset input.size →
      u.mark.read (min offset input.size - u.offset)
        (u.rest.take (min offset input.size - u.offset)) u.rest =
        (Text.takeBytes (min offset input.size) input.chars).foldl Mark.next .start := by
    intro u hu hle
    rw [hu.rest, hu.mark, Mark.read_drop hle]
  have hdrop : ∀ u : Tracker, u.Reads input → u.offset ≤ min offset input.size →
      u.rest.drop (min offset input.size - u.offset) =
        (Text.bytes input.chars).drop (min offset input.size) := by
    intro u hu hle
    rw [hu.rest, List.drop_drop, Nat.add_sub_cancel' hle]
  simp only [Tracker.position, h.size]
  split
  · rw [hread _ h.rewind (Nat.zero_le _)]
    exact ⟨rfl, h.rewind.bytes, h.rewind.size, hdrop _ h.rewind (Nat.zero_le _), rfl⟩
  · next hle =>
    rw [hread _ h (Nat.le_of_not_lt hle)]
    exact ⟨rfl, h.bytes, h.size, hdrop _ h (Nat.le_of_not_lt hle), rfl⟩

/-- A tracker finds a position, and has read the input up to there afterwards. -/
theorem Reads.position (h : t.Reads input) (offset : Nat) :
    (t.position offset).1 = Position.ofOffset input offset ∧
      (t.position offset).2.Reads input :=
  ⟨(h.position_eq offset).1.trans ((reads_ofInput input).position_eq offset).1.symm,
    (h.position_eq offset).2⟩

/-- A tracker finds a location, and has read the input up to its end afterwards. -/
theorem Reads.location (h : t.Reads input) (start stop : Nat) :
    (t.location start stop).1 = Location.ofRange input start stop ∧
      (t.location start stop).2.Reads input := by
  obtain ⟨hstart, hread⟩ := h.position start
  obtain ⟨hstart', hread'⟩ := (reads_ofInput input).position start
  obtain ⟨hstop, hread⟩ := hread.position stop
  obtain ⟨hstop', -⟩ := hread'.position stop
  refine ⟨?_, hread⟩
  simp only [Location.ofRange, Tracker.location, hstart, hstart', hstop, hstop']

end Tracker

end PegMachine
