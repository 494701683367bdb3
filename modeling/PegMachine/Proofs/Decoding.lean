import PegMachine.Proofs.Documents

/-!
# Decoding what was encoded

A document stands for a value if decoding it gives the value, whether the document is decoded while
it is read or afterwards, and if it can be written and read again. Documents of parts make up
documents of the whole: lists of them, pairs, records, and alternatives that are told apart by a
tag.
-/

namespace PegMachine.Json

open Decode

variable {α β : Type} {d : Decoder α} {e : Decoder β} {a : α} {b : β} {j k : Json} {room : Nat}
  {m : Mode}

-- Not a definitional rewrite: the kernel would unfold decoders to see that two binds agree.
@[simp] theorem ok_bind {ε : Type} (a : α) (f : α → Except ε β) : (Except.ok a >>= f) = f a := (rfl)

/-- A document that stands for a value. -/
structure Encodes (room : Nat) (d : Decoder α) (j : Json) (a : α) : Prop where
  plain : j.Plain room
  decodes : ∀ m, d m j = .ok a

theorem hold_of_plain (h : j.Plain room) : hold m j = .ok j := by
  cases m with
  | held => rfl
  | streamed => rw [hold, if_pos h.usable.1]

theorem skip_of_plain (h : j.Plain room) : skip j = .ok () := by rw [skip, if_pos h.usable.2]

/-! ## Single values -/

section

variable (room)

theorem encodes_string (s : String) : Encodes room Decode.string (.str s) s :=
  ⟨trivial, fun _ => rfl⟩

theorem encodes_bool (b : Bool) : Encodes room Decode.bool (.bool b) b := ⟨trivial, fun _ => rfl⟩

theorem encodes_char (c : Char) : Encodes room Decode.char (.str (String.singleton c)) c := by
  refine ⟨trivial, fun _ => ?_⟩
  simp [Decode.char]

theorem encodes_word (w : UInt32) : Encodes room word (.nat w.toNat) w := by
  have hw : w.toNat < 2 ^ 32 := w.toNat_lt
  refine ⟨⟨by omega, by omega⟩, fun _ => ?_⟩
  rw [Json.nat, word, if_pos (by omega), Int.toNat_natCast, UInt32.ofNat_toNat]

theorem encodes_count {n : Nat} (h : n < UInt64.size) : Encodes room count (.nat n) n := by
  have hsize : UInt64.size = 0x10000000000000000 := rfl
  refine ⟨⟨by omega, by omega⟩, fun _ => ?_⟩
  rw [Json.nat, count, if_pos (by omega), Int.toNat_natCast]

theorem encodes_int64 (n : Int64) : Encodes room int64 (.int n.toInt) n := by
  have hlo := n.le_toInt
  have hhi := n.toInt_lt
  refine ⟨⟨by omega, by omega⟩, fun _ => ?_⟩
  rw [Json.int, int64, if_pos (by omega), Int64.ofInt_toInt]

theorem encodes_tag {named : String → Option α} {word : String} (h : named word = some a) :
    Encodes room (tag named) (.str word) a := by
  refine ⟨trivial, fun _ => ?_⟩
  rw [tag, h]
  rfl

end

/-! ## Parts -/

/-- A part that may be missing, and is not; no document of a part is `null`. -/
theorem Encodes.some (h : Encodes room d j a) (hnull : j ≠ .null) :
    Encodes room (Decode.option d) j (some a) := by
  refine ⟨h.plain, fun m => ?_⟩
  rw [Decode.option, h.decodes]
  · rfl
  · exact hnull

theorem str_ne_null (s : String) : Json.str s ≠ .null := nofun

theorem int_ne_null (n : Int) : Json.int n ≠ .null := nofun

theorem nat_ne_null (n : Nat) : Json.nat n ≠ .null := nofun

theorem Encodes.option {f : α → Json} {o : Option α} (h : ∀ a ∈ o, Encodes room d (f a) a)
    (hnull : ∀ a, f a ≠ .null) : Encodes room (Decode.option d) (.opt f o) o := by
  cases o with
  | none => exact ⟨trivial, fun _ => rfl⟩
  | some a => exact (h a rfl).some (hnull a)

theorem Encodes.list {f : α → Json} {l : List α} (h : ∀ a ∈ l, Encodes room d (f a) a) :
    Encodes (room + 1) (Decode.list d) (.arr (l.map f)) l := by
  constructor
  · refine ⟨Nat.succ_pos _, allPlain_iff.mpr fun j hj => ?_⟩
    obtain ⟨a, ha, rfl⟩ := List.mem_map.mp hj
    exact (h a ha).plain
  · intro m
    rw [Decode.list]
    induction l with
    | nil => rfl
    | cons a l ih =>
      obtain ⟨ha, hl⟩ := List.forall_mem_cons.mp h
      rw [List.map_cons, each, ha.decodes, ih hl]
      rfl

theorem Encodes.pair (hj : Encodes room d j a) (hk : Encodes room e k b) :
    Encodes (room + 1) (Decode.pair d e) (.arr [j, k]) (a, b) := by
  refine ⟨⟨Nat.succ_pos _, hj.plain, hk.plain, trivial⟩, fun m => ?_⟩
  rw [Decode.pair, hj.decodes, hk.decodes]
  rfl

/-! ## Records -/

namespace Decode.Record

variable {members : List (String × Json)} {name other : String} {default : α}

/-- The record of an object. -/
def ofObject (m : Mode) (members : List (String × Json)) : Record := ⟨m, false, members, false⟩

@[simp] theorem record_obj (names : List String) (m : Mode) (members : List (String × Json)) :
    record names m (.obj members) = .ok (ofObject m members) := rfl

@[simp] theorem required_cons (m : Mode) (name : String) (j : Json)
    (members : List (String × Json)) (d : Decoder α) :
    (ofObject m ((name, j) :: members)).required name d = d m j := by
  simp [ofObject, required, member?]

@[simp] theorem required_cons_of_ne (h : other ≠ name) (m : Mode) (j : Json)
    (members : List (String × Json)) (d : Decoder α) :
    (ofObject m ((other, j) :: members)).required name d =
      (ofObject m members).required name d := by
  simp [ofObject, required, member?, h]

@[simp] theorem optional_cons (m : Mode) (name : String) (j : Json)
    (members : List (String × Json)) (d : Decoder α) :
    (ofObject m ((name, j) :: members)).optional name d = Decode.option d m j := by
  simp [ofObject, optional, member?]

@[simp] theorem optional_cons_of_ne (h : other ≠ name) (m : Mode) (j : Json)
    (members : List (String × Json)) (d : Decoder α) :
    (ofObject m ((other, j) :: members)).optional name d =
      (ofObject m members).optional name d := by
  simp [ofObject, optional, member?, h]

@[simp] theorem defaulted_nil (m : Mode) (name : String) (default : α) (d : Decoder α) :
    (ofObject m []).defaulted name default d = .ok default := rfl

@[simp] theorem defaulted_cons (m : Mode) (name : String) (j : Json)
    (members : List (String × Json)) (default : α) (d : Decoder α) :
    (ofObject m ((name, j) :: members)).defaulted name default d = d m j := by
  simp [ofObject, defaulted, member?]

@[simp] theorem defaulted_cons_of_ne (h : other ≠ name) (m : Mode) (j : Json)
    (members : List (String × Json)) (default : α) (d : Decoder α) :
    (ofObject m ((other, j) :: members)).defaulted name default d =
      (ofObject m members).defaulted name default d := by
  simp [ofObject, defaulted, member?, h]

@[simp] theorem outcome_ok (r : Record) (a : α) : r.outcome (.ok a) = .ok () := rfl

/-- The fields of a record settle if all of them were decoded and none is given twice. -/
theorem settle_eq_ok (m : Mode) {known : List (String × Except Fault Unit)}
    (hplain : MembersPlain room members) (hnames : (members.map (·.1)).Nodup)
    (hknown : ∀ field ∈ known, field.2 = .ok ()) : (ofObject m members).settle known = .ok () := by
  -- The names that were seen are not among those that come.
  have hfrom : ∀ seen : List String, (∀ name ∈ seen, name ∉ members.map (·.1)) →
      settleFrom known seen members = .ok () := by
    induction members with
    | nil => exact fun _ _ => rfl
    | cons first members ih =>
      obtain ⟨name, j⟩ := first
      intro seen hseen
      obtain ⟨hnew, hnames⟩ := List.nodup_cons.mp hnames
      have hseen' : ∀ other ∈ seen, other ∉ members.map (·.1) := fun other hother hmem =>
        hseen other hother (List.mem_cons_of_mem _ hmem)
      rw [settleFrom]
      cases hfound : known.find? (·.1 = name) with
      | none =>
        dsimp only
        rw [skip_of_plain hplain.1, ok_bind, ih hplain.2 hnames seen hseen']
      | some field =>
        have hname : seen.contains name = false := by
          rw [List.contains_eq_mem, decide_eq_false_iff_not]
          exact fun hmem => hseen name hmem List.mem_cons_self
        dsimp only
        rw [if_neg (Bool.eq_false_iff.mp hname), hknown field (List.mem_of_find?_eq_some hfound),
          ok_bind, ih hplain.2 hnames]
        exact List.forall_mem_cons.mpr ⟨hnew, hseen'⟩
  rw [settle, ofObject, hfrom [] (fun _ h => absurd h List.not_mem_nil)]
  rfl

end Decode.Record

/-! ## Tagged documents -/

section

variable {named : List (String × α)} {key word : String} {fields : List (String × Json)}

/-- Members that are not the tag are held. -/
theorem tagAmong_of_ne (hfields : MembersPlain room fields) (hkey : ∀ f ∈ fields, f.1 ≠ key)
    (a : α) : tagAmong key named m (some a) fields = .ok a := by
  induction fields with
  | nil => rfl
  | cons f fields ih =>
    obtain ⟨hne, hkey⟩ := List.forall_mem_cons.mp hkey
    rw [tagAmong, if_neg hne, hold_of_plain hfields.1, ok_bind, ih hfields.2 hkey]

/-- A tagged document is taken apart into what its tag names and its other members. -/
theorem tagged_obj (hfields : MembersPlain room fields) (hkey : ∀ f ∈ fields, f.1 ≠ key)
    (hnamed : (named.find? (·.1 = word)).map (·.2) = some a) :
    tagged key named m (.obj ((key, .str word) :: fields)) = .ok (a, .obj fields) := by
  have hchoice : choice named m (.str word) = .ok a := by
    rw [choice, hnamed]
    rfl
  have htag : tagAmong key named m none ((key, .str word) :: fields) = .ok a := by
    rw [tagAmong, if_pos rfl, hchoice, ok_bind, tagAmong_of_ne hfields hkey]
  have hothers : ((key, Json.str word) :: fields).filter (fun f => f.1 ≠ key) = fields := by
    rw [List.filter_cons_of_neg (by simp), List.filter_eq_self.mpr]
    exact fun f hf => decide_eq_true (hkey f hf)
  rw [tagged, htag, ok_bind, hothers]
  rfl

end

/-! ## Texts -/

/-- What is written in the compact form is decoded from its text. -/
theorem Encodes.text_compact (h : Encodes depthLimit d j a) : Decode.text d j.compact = .ok a := by
  rw [Decode.text, read_compact h.plain, h.decodes]
  rfl

/-- What is written in the pretty form is decoded from its text. -/
theorem Encodes.text_pretty (h : Encodes depthLimit d j a) : Decode.text d j.pretty = .ok a := by
  rw [Decode.text, read_pretty h.plain, h.decodes]
  rfl

end PegMachine.Json
