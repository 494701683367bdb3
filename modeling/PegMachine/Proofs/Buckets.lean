import Mathlib.Data.Fintype.Card
import Mathlib.Data.List.Nodup
import Mathlib.Data.Nat.ModEq
import PegMachine.Run.Memo

/-!
# The memo table is a finite map

A search for a key looks into one bucket after the other from the home of the key on. It comes to
the entry for the key because no bucket between the home of an entry and the bucket of the entry is
ever empty, and it ends if there is none because there are more buckets than entries. Both are kept
when an entry is replaced, when one is added, and when the table grows and all entries are seated
anew.
-/

namespace PegMachine

/-- The offset and the rule that an entry is for. -/
def MemoEntry.key (e : MemoEntry) : Nat × Nat := (e.pos, e.rule)

namespace MemoTable

variable {capacity bucket place pos rule start : Nat} {buckets : Array Int32}

/-! ## Going round -/

/-- The bucket that is so many buckets after another one. -/
def after (capacity bucket n : Nat) : Nat := (bucket + n) % capacity

theorem after_lt (h : 0 < capacity) (bucket n : Nat) : after capacity bucket n < capacity :=
  Nat.mod_lt _ h

theorem after_zero (h : bucket < capacity) : after capacity bucket 0 = bucket :=
  Nat.mod_eq_of_lt h

/-- A bit mask takes the place of a remainder. -/
theorem next_after (h : capacity.isPowerOfTwo) (bucket n : Nat) :
    next capacity (after capacity bucket n) = after capacity bucket (n + 1) := by
  obtain ⟨k, rfl⟩ := h
  rw [next, Nat.and_two_pow_sub_one_eq_mod, after, Nat.mod_add_mod, after, Nat.add_assoc]

theorem home_lt (h : capacity.isPowerOfTwo) (pos rule : Nat) :
    home capacity pos rule < capacity := by
  obtain ⟨k, rfl⟩ := h
  rw [home, Nat.and_two_pow_sub_one_eq_mod]
  exact Nat.mod_lt _ (Nat.two_pow_pos k)

/-- The buckets on one way round are different ones. -/
theorem after_inj {i j : Nat} (hi : i < capacity) (hj : j < capacity)
    (h : after capacity bucket i = after capacity bucket j) : i = j := by
  have hmod : i ≡ j [MOD capacity] := Nat.ModEq.add_left_cancel' bucket h
  rwa [Nat.ModEq, Nat.mod_eq_of_lt hi, Nat.mod_eq_of_lt hj] at hmod

/-- One way round comes to every bucket. -/
theorem exists_after (hstart : start < capacity) (h : bucket < capacity) :
    ∃ n < capacity, after capacity start n = bucket := by
  by_cases hle : start ≤ bucket
  · refine ⟨bucket - start, by omega, ?_⟩
    rw [after, Nat.add_sub_cancel' hle, Nat.mod_eq_of_lt h]
  · refine ⟨capacity - start + bucket, by omega, ?_⟩
    have hround : start + (capacity - start + bucket) = bucket + capacity := by omega
    rw [after, hround, Nat.add_mod_right, Nat.mod_eq_of_lt h]

/-- What goes from bucket to bucket for as long as nothing stops it ends where it is stopped
first. -/
theorem walk_eq {α : Type} {stop : Nat → Option α} {walk : Nat → Nat → α} {result : α} {d : Nat}
    (hwalk : ∀ n b, walk (n + 1) b = (stop b).getD (walk n (next capacity b)))
    (hpower : capacity.isPowerOfTwo) (hstart : start < capacity) (hd : d < capacity)
    (hbefore : ∀ j < d, stop (after capacity start j) = none)
    (hend : stop (after capacity start d) = some result) : walk capacity start = result := by
  have hfrom (m i n : Nat) (hm : i + m = d) (hn : m < n) :
      walk n (after capacity start i) = result := by
    induction m generalizing i n with
    | zero =>
      obtain ⟨n, rfl⟩ := Nat.exists_eq_add_one.mpr hn
      obtain rfl : i = d := hm
      rw [hwalk, hend, Option.getD_some]
    | succ m ih =>
      obtain ⟨n, rfl⟩ := Nat.exists_eq_add_one.mpr (Nat.zero_lt_of_lt hn)
      rw [hwalk, hbefore i (by omega), Option.getD_none, next_after hpower]
      exact ih (i + 1) n (by omega) (by omega)
  rw [← after_zero hstart]
  exact hfrom d 0 capacity (Nat.zero_add d) hd

/-! ## Places in buckets -/

/-- The place that is in the bucket with a number. -/
def placeAt? (buckets : Array Int32) (bucket : Nat) : Option Nat := buckets[bucket]?.bind place?

theorem place?_vacancy : place? vacancy = none := by decide

/-- A word of 32 bits with a sign has room for a place below `2 ^ 31`. -/
theorem place?_ofNat (h : place < 2 ^ 31) : place? (Int32.ofNat place) = some place := by
  have htoInt := Int32.toInt_ofNat_of_lt h
  have hnonneg : ¬Int32.ofNat place < 0 := by
    rw [Int32.lt_iff_toInt_lt, htoInt]
    simp
  rw [place?, if_neg hnonneg, htoInt, Int.toNat_natCast]

theorem placeAt?_replicate (n bucket : Nat) :
    placeAt? (Array.replicate n vacancy) bucket = none := by
  rw [placeAt?, Array.getElem?_replicate]
  split
  · exact place?_vacancy
  · rfl

theorem placeAt?_setIfInBounds (hbucket : bucket < buckets.size) (hplace : place < 2 ^ 31)
    (b : Nat) : placeAt? (buckets.setIfInBounds bucket (Int32.ofNat place)) b =
      if b = bucket then some place else placeAt? buckets b := by
  rw [placeAt?, Array.getElem?_setIfInBounds]
  by_cases hb : bucket = b
  · subst hb
    simp [hbucket, place?_ofNat hplace]
  · rw [if_neg hb, if_neg (Ne.symm hb), placeAt?]

/-! ## Entries in their seats -/

/-- Buckets hold the places of entries with some keys, each once, and so that no bucket between the
home of an entry and its bucket is empty. -/
structure Seated (buckets : Array Int32) (ks : List (Nat × Nat)) : Prop where
  place_lt : ∀ bucket place, placeAt? buckets bucket = some place → place < ks.length
  unique : ∀ b b' place, placeAt? buckets b = some place → placeAt? buckets b' = some place → b = b'
  chain : ∀ (place : Nat) (key : Nat × Nat), ks[place]? = some key →
    let walk := after buckets.size (home buckets.size key.1 key.2)
    ∃ d < buckets.size, placeAt? buckets (walk d) = some place ∧
      ∀ j < d, (placeAt? buckets (walk j)).isSome

variable {ks : List (Nat × Nat)} {key : Nat × Nat}

theorem seated_replicate (n : Nat) : Seated (Array.replicate n vacancy) [] := by
  refine ⟨fun bucket place h => ?_, fun b b' place h => ?_, nofun⟩
  · rw [placeAt?_replicate] at h
    cases h
  · rw [placeAt?_replicate] at h
    cases h

/-- Every entry is in just one bucket. -/
theorem Seated.existsUnique (h : Seated buckets ks) (hplace : place < ks.length) :
    ∃! bucket, placeAt? buckets bucket = some place := by
  obtain ⟨d, -, hd, -⟩ := h.chain place _ (List.getElem?_eq_getElem hplace)
  exact ⟨_, hd, fun b hb => h.unique b _ place hb hd⟩

/-- Where there are more buckets than entries some bucket is empty. -/
theorem Seated.exists_vacant (h : Seated buckets ks) (hroom : ks.length < buckets.size) :
    ∃ bucket < buckets.size, placeAt? buckets bucket = none := by
  by_contra hfull
  have hplace (b : Fin buckets.size) : ∃ place, placeAt? buckets b = some place := by
    rw [← Option.ne_none_iff_exists']
    exact fun hnone => hfull ⟨b, b.isLt, hnone⟩
  choose places hplaces using hplace
  let seats (b : Fin buckets.size) : Fin ks.length := ⟨places b, h.place_lt b _ (hplaces b)⟩
  have hinj : Function.Injective seats := by
    intro b b' hsame
    have hplace : places b = places b' := congrArg Fin.val hsame
    exact Fin.ext (h.unique b b' _ (hplaces b) (hplace ▸ hplaces b'))
  have hcard := Fintype.card_le_of_injective seats hinj
  rw [Fintype.card_fin, Fintype.card_fin] at hcard
  omega

/-- On the way from a bucket on there is a first empty bucket. -/
theorem Seated.exists_first_vacant (h : Seated buckets ks) (hroom : ks.length < buckets.size)
    (hstart : start < buckets.size) :
    ∃ d < buckets.size, placeAt? buckets (after buckets.size start d) = none ∧
      ∀ j < d, (placeAt? buckets (after buckets.size start j)).isSome := by
  obtain ⟨bucket, hbucket, hvacant⟩ := h.exists_vacant hroom
  obtain ⟨n, hn, rfl⟩ := exists_after hstart hbucket
  have hexists : ∃ d, placeAt? buckets (after buckets.size start d) = none := ⟨n, hvacant⟩
  refine ⟨Nat.find hexists, (Nat.find_min' hexists hvacant).trans_lt hn, Nat.find_spec hexists,
    fun j hj => ?_⟩
  exact Option.isSome_iff_ne_none.mpr (Nat.find_min hexists hj)

/-- One more entry may be put into the first empty bucket from its home on. -/
theorem Seated.push (h : Seated buckets ks) (key : Nat × Nat) (hfits : ks.length < 2 ^ 31) {d : Nat}
    (hd : d < buckets.size)
    (hvacant : placeAt? buckets (after buckets.size (home buckets.size key.1 key.2) d) = none)
    (hbefore : ∀ j < d,
      (placeAt? buckets (after buckets.size (home buckets.size key.1 key.2) j)).isSome) :
    Seated (buckets.setIfInBounds (after buckets.size (home buckets.size key.1 key.2) d)
      (Int32.ofNat ks.length)) (ks ++ [key]) := by
  generalize hseat : after buckets.size (home buckets.size key.1 key.2) d = seat at hvacant ⊢
  have hlt : seat < buckets.size := hseat ▸ after_lt (Nat.zero_lt_of_lt hd) _ _
  have hset := placeAt?_setIfInBounds hlt hfits
  -- What was in a bucket is still there, since the new seat was empty.
  have hkept {b place : Nat} (hb : placeAt? buckets b = some place) :
      placeAt? (buckets.setIfInBounds seat (Int32.ofNat ks.length)) b = some place := by
    rw [hset, if_neg, hb]
    rintro rfl
    rw [hvacant] at hb
    cases hb
  have htaken {b : Nat} (hb : (placeAt? buckets b).isSome) :
      (placeAt? (buckets.setIfInBounds seat (Int32.ofNat ks.length)) b).isSome := by
    obtain ⟨place, hplace⟩ := Option.isSome_iff_exists.mp hb
    exact Option.isSome_iff_exists.mpr ⟨place, hkept hplace⟩
  have hcases {b place : Nat}
      (hb : placeAt? (buckets.setIfInBounds seat (Int32.ofNat ks.length)) b = some place) :
      b = seat ∧ place = ks.length ∨ placeAt? buckets b = some place ∧ place < ks.length := by
    rw [hset] at hb
    split at hb
    · next hseat => exact .inl ⟨hseat, (Option.some.inj hb).symm⟩
    · exact .inr ⟨hb, h.place_lt b place hb⟩
  refine ⟨fun b place hb => ?_, fun b b' place hb hb' => ?_, fun place key' hkey' => ?_⟩
  · rw [List.length_append, List.length_singleton]
    rcases hcases hb with ⟨-, rfl⟩ | ⟨-, hlt⟩
    · exact Nat.lt_succ_self _
    · exact hlt.trans (Nat.lt_succ_self _)
  · rcases hcases hb with ⟨rfl, rfl⟩ | ⟨hold, hlt⟩
    · rcases hcases hb' with ⟨rfl, -⟩ | ⟨-, hlt⟩
      · rfl
      · exact absurd hlt (Nat.lt_irrefl _)
    · rcases hcases hb' with ⟨-, rfl⟩ | ⟨hold', -⟩
      · exact absurd hlt (Nat.lt_irrefl _)
      · exact h.unique b b' place hold hold'
  · rw [Array.size_setIfInBounds]
    rcases Nat.lt_or_ge place ks.length with hold | hnew
    · rw [List.getElem?_append_left hold] at hkey'
      obtain ⟨d', hd', hplace, htaken'⟩ := h.chain place key' hkey'
      exact ⟨d', hd', hkept hplace, fun j hj => htaken (htaken' j hj)⟩
    · have hplace : place = ks.length := by
        have hlt := (List.getElem?_eq_some_iff.mp hkey').1
        rw [List.length_append, List.length_singleton] at hlt
        omega
      subst hplace
      obtain rfl : key = key' := by simpa using hkey'
      refine ⟨d, hd, ?_, fun j hj => htaken (hbefore j hj)⟩
      rw [hseat, hset, if_pos rfl]

/-! ## Searching -/

section

variable {t : MemoTable}

/-- A search ends where it first can. -/
theorem search_eq {ending : Probe} {d : Nat} (hpower : t.capacity.isPowerOfTwo)
    (hd : d < t.capacity)
    (hbefore : ∀ j < d,
      t.look pos rule (after t.capacity (home t.capacity pos rule) j) = none)
    (hend : t.look pos rule (after t.capacity (home t.capacity pos rule) d) = some ending) :
    t.search pos rule = ending := by
  have hwalk (n b : Nat) : t.probe pos rule (n + 1) b =
      (t.look pos rule b).getD (t.probe pos rule n (next t.capacity b)) := by
    rw [probe]
    cases t.look pos rule b <;> rfl
  rw [search]
  exact walk_eq hwalk hpower (home_lt hpower pos rule) hd hbefore hend

/-- The keys of the entries of a table. -/
def keys (t : MemoTable) : List (Nat × Nat) := t.entries.toList.map MemoEntry.key

theorem length_keys (t : MemoTable) : t.keys.length = t.entries.size := by
  simp [keys]

theorem keys_getElem? (t : MemoTable) (place : Nat) :
    t.keys[place]? = (t.entries[place]?).map MemoEntry.key := by
  rw [keys, List.getElem?_map, Array.getElem?_toList]

theorem isFor_iff {e : MemoEntry} : isFor pos rule e = true ↔ e.key = (pos, rule) := by
  simp [isFor, MemoEntry.key]

theorem look_vacant (pos rule : Nat) (hlt : bucket < t.buckets.size)
    (h : placeAt? t.buckets bucket = none) :
    t.look pos rule bucket = some (.vacant bucket) := by
  rw [placeAt?, Array.getElem?_eq_getElem hlt, Option.bind_some] at h
  rw [look, Array.getElem?_eq_getElem hlt]
  simp only [h]

theorem look_taken {e : MemoEntry} (h : placeAt? t.buckets bucket = some place)
    (he : t.entries[place]? = some e) :
    t.look pos rule bucket = if isFor pos rule e then some (.found place) else none := by
  obtain ⟨content, hcontent, hplace⟩ := Option.bind_eq_some_iff.mp h
  rw [look, hcontent]
  simp only [hplace, he]

/-! ## Tables that are in order -/

/-- A table is in order: there are enough buckets, a power of two of them, and all entries have
seats and different keys. -/
structure Orderly (t : MemoTable) : Prop where
  capacity_eq : t.capacity = t.buckets.size
  power : t.capacity.isPowerOfTwo
  least : 16 ≤ t.capacity
  load : 4 * t.entries.size ≤ 3 * t.capacity + 4
  seated : Seated t.buckets t.keys
  distinct : t.keys.Nodup

theorem orderly_empty (estimate : Nat) : (empty estimate).Orderly := by
  have hsixteen : Nat.isPowerOfTwo 16 := ⟨4, rfl⟩
  refine ⟨Array.size_replicate.symm, ?_, Nat.le_max_right _ _, Nat.zero_le _, seated_replicate _,
    List.nodup_nil⟩
  change (max estimate.nextPowerOfTwo 16).isPowerOfTwo
  rcases Nat.le_total estimate.nextPowerOfTwo 16 with hle | hle
  · rwa [Nat.max_eq_right hle]
  · rw [Nat.max_eq_left hle]
    exact Nat.isPowerOfTwo_nextPowerOfTwo estimate

namespace Orderly

variable (h : t.Orderly)
include h

/-- There are more buckets than entries. -/
theorem room : t.keys.length < t.buckets.size := by
  have hload := h.load
  have hleast := h.least
  rw [length_keys, ← h.capacity_eq]
  omega

/-- The home of a key is a bucket. -/
theorem home_lt_size (pos rule : Nat) : home t.buckets.size pos rule < t.buckets.size :=
  h.capacity_eq ▸ home_lt h.power pos rule

theorem place_eq {place' : Nat} {e e' : MemoEntry} (he : t.entries[place]? = some e)
    (he' : t.entries[place']? = some e') (hkey : e.key = e'.key) : place = place' := by
  have hplace : t.keys[place]? = some e.key := by rw [keys_getElem?, he, Option.map_some]
  have hplace' : t.keys[place']? = some e.key := by rw [keys_getElem?, he', Option.map_some, hkey]
  obtain ⟨hlt, hplace⟩ := List.getElem?_eq_some_iff.mp hplace
  obtain ⟨hlt', hplace'⟩ := List.getElem?_eq_some_iff.mp hplace'
  exact (List.Nodup.getElem_inj_iff h.distinct).mp (hplace.trans hplace'.symm)

/-- A bucket with another key is passed by. -/
theorem look_other (htaken : (placeAt? t.buckets bucket).isSome)
    (hother : ∀ place e, placeAt? t.buckets bucket = some place → t.entries[place]? = some e →
      e.key ≠ (pos, rule)) : t.look pos rule bucket = none := by
  obtain ⟨place, hplace⟩ := Option.isSome_iff_exists.mp htaken
  have hlt := h.seated.place_lt bucket place hplace
  rw [length_keys] at hlt
  have he := Array.getElem?_eq_getElem hlt
  rw [look_taken hplace he, if_neg]
  exact fun hkey => hother place _ hplace he (isFor_iff.mp hkey)

/-- A search finds the entry for its key. -/
theorem search_found {e : MemoEntry} (he : t.entries[place]? = some e)
    (hkey : e.key = (pos, rule)) : t.search pos rule = .found place := by
  have hplace : t.keys[place]? = some (pos, rule) := by
    rw [keys_getElem?, he, Option.map_some, hkey]
  obtain ⟨d, hd, hseat, htaken⟩ := h.seated.chain place _ hplace
  rw [← h.capacity_eq] at hd hseat htaken
  refine search_eq h.power hd
    (fun j hj => h.look_other (htaken j hj) fun place' e' hj' he' => ?_) ?_
  · -- The entry for the key is in one bucket only, and the way there does not go round.
    intro hkey'
    obtain rfl := h.place_eq he he' (hkey.trans hkey'.symm)
    exact hj.ne (after_inj (hj.trans hd) hd (h.seated.unique _ _ _ hj' hseat))
  · rw [look_taken hseat he, if_pos (isFor_iff.mpr hkey)]

/-- A search for a key that no entry is for ends at the first empty bucket. -/
theorem search_vacant (hnone : ∀ e ∈ t.entries, e.key ≠ (pos, rule)) :
    ∃ d < t.buckets.size,
      let walk := after t.buckets.size (home t.buckets.size pos rule)
      t.search pos rule = .vacant (walk d) ∧ placeAt? t.buckets (walk d) = none ∧
      ∀ j < d, (placeAt? t.buckets (walk j)).isSome := by
  obtain ⟨d, hd, hvacant, htaken⟩ :=
    h.seated.exists_first_vacant h.room (h.home_lt_size pos rule)
  refine ⟨d, hd, ?_, hvacant, htaken⟩
  have hlt := after_lt (Nat.zero_lt_of_lt hd) (home t.buckets.size pos rule) d
  have hlook := look_vacant pos rule hlt hvacant
  rw [← h.capacity_eq] at hd htaken hlook ⊢
  exact search_eq h.power hd (fun j hj => h.look_other (htaken j hj) fun _ e _ he =>
    hnone e (Array.mem_of_getElem? he)) hlook

/-- A search ends at the entry for its key, or at an empty bucket if there is none. -/
theorem search_cases (pos rule : Nat) :
    (∃ place e, t.search pos rule = .found place ∧ t.entries[place]? = some e ∧
      e.key = (pos, rule)) ∨
    (∀ e ∈ t.entries, e.key ≠ (pos, rule)) ∧ ∃ bucket, t.search pos rule = .vacant bucket := by
  by_cases hsome : ∃ e ∈ t.entries, e.key = (pos, rule)
  · obtain ⟨e, hmem, hkey⟩ := hsome
    obtain ⟨place, he⟩ := Array.mem_iff_getElem?.mp hmem
    exact .inl ⟨place, e, h.search_found he hkey, he, hkey⟩
  · have hnone : ∀ e ∈ t.entries, e.key ≠ (pos, rule) := fun e he hkey => hsome ⟨e, he, hkey⟩
    obtain ⟨d, -, hsearch, -⟩ := h.search_vacant hnone
    exact .inr ⟨hnone, _, hsearch⟩

/-- Every search ends. -/
theorem search_ne_lost (pos rule : Nat) : t.search pos rule ≠ .lost := by
  rcases h.search_cases pos rule with ⟨_, _, hsearch, -⟩ | ⟨-, _, hsearch⟩
  · rw [hsearch]
    nofun
  · rw [hsearch]
    nofun

/-- What is got for a key is the entry for it. -/
theorem get?_eq_some_iff {e : MemoEntry} :
    t.get? pos rule = some e ↔ e ∈ t.entries ∧ e.key = (pos, rule) := by
  rw [get?]
  rcases h.search_cases pos rule with ⟨place, e', hsearch, he', hkey'⟩ | ⟨hnone, bucket, hsearch⟩
  · rw [hsearch]
    dsimp only
    constructor
    · intro he
      rw [he'] at he
      cases he
      exact ⟨Array.mem_of_getElem? he', hkey'⟩
    · rintro ⟨hmem, hkey⟩
      obtain ⟨place', he⟩ := Array.mem_iff_getElem?.mp hmem
      rw [h.place_eq he' he (hkey'.trans hkey.symm), he]
  · rw [hsearch]
    exact ⟨nofun, fun ⟨hmem, hkey⟩ => absurd hkey (hnone e hmem)⟩

end Orderly

end

/-! ## Growing -/

/-- An entry is put into the first empty bucket from its home on. -/
theorem vacantFrom_eq {d : Nat} (hpower : capacity.isPowerOfTwo) (hstart : start < capacity)
    (hd : d < capacity)
    (hbefore : ∀ j < d, (placeAt? buckets (after capacity start j)).isSome)
    (hvacant : placeAt? buckets (after capacity start d) = none) :
    vacantFrom capacity buckets capacity start = after capacity start d := by
  have hwalk (n b : Nat) : vacantFrom capacity buckets (n + 1) b =
      (if (placeAt? buckets b).isSome then none else some b).getD
        (vacantFrom capacity buckets n (next capacity b)) := by
    rw [vacantFrom, placeAt?]
    split <;> rfl
  refine walk_eq hwalk hpower hstart hd (fun j hj => if_pos (hbefore j hj)) ?_
  rw [hvacant]
  rfl

theorem Seated.seat (h : Seated buckets ks) (hpower : buckets.size.isPowerOfTwo)
    (hroom : ks.length < buckets.size) (hfits : ks.length < 2 ^ 31) (e : MemoEntry) :
    Seated (seat buckets.size buckets ks.length e) (ks ++ [e.key]) := by
  have hhome := home_lt hpower e.pos e.rule
  obtain ⟨d, hd, hvacant, hbefore⟩ := h.exists_first_vacant hroom hhome
  rw [MemoTable.seat, vacantFrom_eq hpower hhome hd hbefore hvacant]
  exact h.push e.key hfits hd hvacant hbefore

theorem seated_seatAll (es : List MemoEntry) (h : Seated buckets ks)
    (hpower : buckets.size.isPowerOfTwo) (hroom : ks.length + es.length ≤ buckets.size)
    (hfits : ks.length + es.length ≤ 2 ^ 31) :
    (seatAll buckets.size buckets ks.length es).size = buckets.size ∧
      Seated (seatAll buckets.size buckets ks.length es) (ks ++ es.map MemoEntry.key) := by
  induction es generalizing buckets ks with
  | nil => exact ⟨rfl, by rwa [List.map_nil, List.append_nil]⟩
  | cons e es ih =>
    rw [List.length_cons] at hroom hfits
    have hsize : (MemoTable.seat buckets.size buckets ks.length e).size = buckets.size :=
      Array.size_setIfInBounds
    have hlength : (ks ++ [e.key]).length = ks.length + 1 := List.length_append
    have hrest := ih (h.seat hpower (by omega) (by omega) e) (by rwa [hsize]) (by omega) (by omega)
    rwa [hsize, hlength, List.append_assoc, List.singleton_append, ← List.map_cons] at hrest

section

variable {t : MemoTable} {e e' : MemoEntry}

theorem Orderly.grow (h : t.Orderly) (hfits : t.entries.size < 2 ^ 31) : t.grow.Orderly := by
  have hload := h.load
  have hleast := h.least
  have hpower : (t.capacity * 2).isPowerOfTwo := Nat.isPowerOfTwo_mul_two_of_isPowerOfTwo h.power
  have hsize : (Array.replicate (t.capacity * 2) vacancy).size = t.capacity * 2 :=
    Array.size_replicate
  have hall := seated_seatAll t.entries.toList (seated_replicate (t.capacity * 2))
    (by rwa [hsize]) (by simp; omega) (by simp; omega)
  rw [hsize, List.length_nil, List.nil_append] at hall
  refine ⟨hall.1.symm, hpower, ?_, ?_, hall.2, h.distinct⟩
  · exact h.least.trans (Nat.le_mul_of_pos_right _ Nat.two_pos)
  · change 4 * t.entries.size ≤ 3 * (t.capacity * 2) + 4
    omega

/-! ## Inserting -/

/-- The table that an entry is inserted into has room for it below its load. -/
theorem Orderly.exists_roomy (h : t.Orderly) (hfits : t.entries.size < 2 ^ 31) :
    (if t.isCrowded then t.grow else t).Orderly ∧
      (if t.isCrowded then t.grow else t).entries = t.entries ∧
      4 * t.entries.size ≤ 3 * (if t.isCrowded then t.grow else t).capacity := by
  have hload := h.load
  have hleast := h.least
  split
  · refine ⟨h.grow hfits, rfl, ?_⟩
    change 4 * t.entries.size ≤ 3 * (t.capacity * 2)
    omega
  · next hroomy =>
    refine ⟨h, rfl, ?_⟩
    simpa [isCrowded] using hroomy

/-- An entry takes the place of the one for its key. -/
theorem Orderly.replace (h : t.Orderly) (he' : t.entries[place]? = some e')
    (hkey : e'.key = e.key) :
    ({ t with entries := t.entries.setIfInBounds place e } : MemoTable).Orderly ∧
      ∀ x, x ∈ t.entries.setIfInBounds place e ↔ x = e ∨ x ∈ t.entries ∧ x.key ≠ e.key := by
  obtain ⟨hlt, -⟩ := Array.getElem?_eq_some_iff.mp he'
  have hkeys : ({ t with entries := t.entries.setIfInBounds place e } : MemoTable).keys =
      t.keys := by
    refine List.ext_getElem? fun i => ?_
    rw [keys_getElem?, keys_getElem?, Array.getElem?_setIfInBounds]
    split
    · next hi =>
      subst hi
      rw [he', Option.map_some, Option.map_some, hkey]
    · rfl
  refine ⟨⟨h.capacity_eq, h.power, h.least, ?_, hkeys ▸ h.seated, hkeys ▸ h.distinct⟩,
    fun x => ?_⟩
  · change 4 * (t.entries.setIfInBounds place e).size ≤ 3 * t.capacity + 4
    rw [Array.size_setIfInBounds]
    exact h.load
  · rw [Array.mem_iff_getElem?]
    simp only [Array.getElem?_setIfInBounds]
    constructor
    · rintro ⟨i, hi⟩
      split at hi
      · next heq =>
        exact .inl (Option.some.inj hi).symm
      · next hne =>
        exact .inr ⟨Array.mem_of_getElem? hi,
          fun hx => hne (h.place_eq he' hi (hkey.trans hx.symm))⟩
    · rintro (rfl | ⟨hmem, hx⟩)
      · exact ⟨place, by rw [if_pos rfl, if_pos hlt]⟩
      · obtain ⟨i, hi⟩ := Array.mem_iff_getElem?.mp hmem
        refine ⟨i, ?_⟩
        rw [if_neg, hi]
        rintro rfl
        rw [he'] at hi
        cases hi
        exact hx hkey

/-- An entry with a new key is added. -/
theorem Orderly.add (h : t.Orderly) (hfits : t.entries.size < 2 ^ 31)
    (hload : 4 * t.entries.size ≤ 3 * t.capacity) (hnew : ∀ x ∈ t.entries, x.key ≠ e.key)
    (hsearch : t.search e.pos e.rule = .vacant bucket) :
    ({ t with
        buckets := t.buckets.setIfInBounds bucket (Int32.ofNat t.entries.size)
        entries := t.entries.push e } : MemoTable).Orderly := by
  obtain ⟨d, hd, hwalk, hvacant, hbefore⟩ := h.search_vacant hnew
  rw [hsearch] at hwalk
  obtain rfl := Probe.vacant.inj hwalk
  have hlength := length_keys t
  have hkeys (buckets : Array Int32) :
      (⟨buckets, t.entries.push e, t.capacity⟩ : MemoTable).keys = t.keys ++ [e.key] := by
    simp [keys]
  refine ⟨?_, h.power, h.least, ?_, ?_, ?_⟩
  · rw [Array.size_setIfInBounds]
    exact h.capacity_eq
  · change 4 * (t.entries.push e).size ≤ 3 * t.capacity + 4
    rw [Array.size_push]
    omega
  · have hpushed := h.seated.push e.key (hlength ▸ hfits) hd hvacant hbefore
    rwa [hlength, ← hkeys] at hpushed
  · rw [hkeys]
    refine List.nodup_append.mpr ⟨h.distinct, List.nodup_singleton _, ?_⟩
    rintro key hkey _ hsame rfl
    obtain ⟨x, hx, rfl⟩ := List.mem_map.mp hkey
    exact hnew x (Array.mem_toList_iff.mp hx) (List.mem_singleton.mp hsame)

/-- Inserting an entry keeps the table in order, and of the others those with another key. -/
theorem Orderly.insert (h : t.Orderly) (hfits : t.entries.size < 2 ^ 31) (e : MemoEntry) :
    (t.insert e).Orderly ∧
      ∀ x, x ∈ (t.insert e).entries ↔ x = e ∨ x ∈ t.entries ∧ x.key ≠ e.key := by
  obtain ⟨hroomy, hentries, hload⟩ := h.exists_roomy hfits
  rw [MemoTable.insert]
  generalize (if t.isCrowded then t.grow else t) = u at hroomy hentries hload
  rw [← hentries] at hfits hload ⊢
  rcases hroomy.search_cases e.pos e.rule with
    ⟨place, e', hsearch, he', hkey⟩ | ⟨hnew, bucket, hsearch⟩
  · simp only [hsearch]
    exact hroomy.replace he' hkey
  · simp only [hsearch]
    refine ⟨hroomy.add hfits hload hnew hsearch, fun x => ?_⟩
    rw [Array.mem_push, or_comm]
    exact or_congr_right ⟨fun hx => ⟨hx, hnew x hx⟩, And.left⟩

end

/-! ## Whole runs -/

/-- A table keeps what was inserted into it: for each key the entry that was inserted last and no
other one, in one bucket. There is a power of two of buckets, and some bucket is empty. -/
structure Keeps (t : MemoTable) (inserted : List MemoEntry) : Prop where
  ends : ∀ pos rule, t.search pos rule ≠ .lost
  latest : ∀ pos rule, t.get? pos rule = inserted.reverse.find? (isFor pos rule)
  distinct : t.keys.Nodup
  keys : ∀ key, key ∈ t.keys ↔ key ∈ inserted.map MemoEntry.key
  seats : ∀ place < t.entries.size, ∃! bucket, placeAt? t.buckets bucket = some place
  places : ∀ bucket place, placeAt? t.buckets bucket = some place → place < t.entries.size
  capacity : t.capacity = t.buckets.size ∧ t.capacity.isPowerOfTwo ∧ 16 ≤ t.capacity
  vacant : ∃ bucket < t.capacity, placeAt? t.buckets bucket = none

variable {t : MemoTable} {inserted : List MemoEntry}

theorem find?_eq_some_key {e : MemoEntry} {es : List MemoEntry}
    (h : es.find? (isFor pos rule) = some e) : e ∈ es ∧ e.key = (pos, rule) :=
  ⟨List.mem_of_find?_eq_some h, isFor_iff.mp (List.find?_some h)⟩

/-- A table that is in order keeps what was inserted if its entries are the latest ones. -/
theorem Orderly.keeps (h : t.Orderly)
    (hlatest : ∀ e, e ∈ t.entries ↔ inserted.reverse.find? (isFor e.pos e.rule) = some e) :
    t.Keeps inserted := by
  have hlength := length_keys t
  refine ⟨h.search_ne_lost, fun pos rule => Option.ext fun e => ?_, h.distinct, fun key => ?_,
    fun place hplace => h.seated.existsUnique (hlength.symm ▸ hplace),
    fun bucket place hplace => hlength ▸ h.seated.place_lt bucket place hplace,
    ⟨h.capacity_eq, h.power, h.least⟩, h.capacity_eq ▸ h.seated.exists_vacant h.room⟩
  · rw [h.get?_eq_some_iff, hlatest]
    constructor
    · rintro ⟨hfind, hkey⟩
      cases hkey
      exact hfind
    · intro hfind
      obtain ⟨-, hkey⟩ := find?_eq_some_key hfind
      cases hkey
      exact ⟨hfind, rfl⟩
  · rw [MemoTable.keys, List.mem_map, List.mem_map]
    constructor
    · rintro ⟨e, he, rfl⟩
      have hfind := (hlatest e).mp (Array.mem_toList_iff.mp he)
      exact ⟨e, List.mem_reverse.mp (find?_eq_some_key hfind).1, rfl⟩
    · rintro ⟨e, he, rfl⟩
      have hsome : (inserted.reverse.find? (isFor e.pos e.rule)).isSome :=
        List.find?_isSome.mpr ⟨e, List.mem_reverse.mpr he, isFor_iff.mpr rfl⟩
      obtain ⟨x, hx⟩ := Option.isSome_iff_exists.mp hsome
      have hkey : x.key = e.key := (find?_eq_some_key hx).2
      obtain ⟨hpos, hrule⟩ := Prod.mk.inj hkey
      rw [← hpos, ← hrule] at hx
      exact ⟨x, Array.mem_toList_iff.mpr ((hlatest x).mpr hx), hkey⟩

/-- The table is in order after each insertion, and has the latest entries. -/
theorem orderly_foldl_insert (estimate : Nat)
    (hfits : (inserted.map MemoEntry.key).toFinset.card < 2 ^ 31) :
    (inserted.foldl insert (empty estimate)).Orderly ∧
      ∀ e, e ∈ (inserted.foldl insert (empty estimate)).entries ↔
        inserted.reverse.find? (isFor e.pos e.rule) = some e := by
  induction inserted using List.reverseRecOn with
  | nil => exact ⟨orderly_empty estimate, fun e => ⟨nofun, nofun⟩⟩
  | append_singleton es x ih =>
    have hsub : (es.map MemoEntry.key).toFinset ⊆ ((es ++ [x]).map MemoEntry.key).toFinset := by
      intro key hkey
      rw [List.mem_toFinset] at hkey ⊢
      rw [List.map_append]
      exact List.mem_append_left _ hkey
    have hbefore := (Finset.card_le_card hsub).trans_lt hfits
    obtain ⟨horderly, hlatest⟩ := ih hbefore
    have hkeeps := horderly.keeps hlatest
    -- There are no more entries than there were keys so far.
    have hsize : (es.foldl insert (empty estimate)).entries.size < 2 ^ 31 := by
      rw [← length_keys, ← List.toFinset_card_of_nodup hkeeps.distinct]
      refine (Finset.card_le_card fun key hkey => ?_).trans_lt hbefore
      rw [List.mem_toFinset] at hkey ⊢
      exact (hkeeps.keys key).mp hkey
    obtain ⟨hinserted, hmem⟩ := horderly.insert hsize x
    rw [List.foldl_append, List.foldl_cons, List.foldl_nil]
    refine ⟨hinserted, fun e => ?_⟩
    rw [hmem, hlatest, List.reverse_append, List.reverse_singleton, List.singleton_append,
      List.find?_cons]
    by_cases hkey : x.key = e.key
    · rw [isFor_iff.mpr hkey]
      simp [hkey, eq_comm]
    · have hne : e ≠ x := fun heq => hkey (heq ▸ rfl)
      rw [Bool.eq_false_iff.mpr fun hfor => hkey (isFor_iff.mp hfor)]
      simp [hne, Ne.symm hkey]

/-- After any insertions for fewer than `2 ^ 31` keys a table keeps what was inserted, and growing
it makes no difference to that. -/
theorem foldl_insert_keeps (estimate : Nat)
    (hfits : (inserted.map MemoEntry.key).toFinset.card < 2 ^ 31) :
    let t := inserted.foldl insert (empty estimate)
    t.Keeps inserted ∧ t.grow.Keeps inserted ∧ t.grow.entries = t.entries ∧
      t.grow.capacity = 2 * t.capacity := by
  obtain ⟨horderly, hlatest⟩ := orderly_foldl_insert estimate hfits
  have hkeeps := horderly.keeps hlatest
  have hsize : (inserted.foldl insert (empty estimate)).entries.size < 2 ^ 31 := by
    rw [← length_keys, ← List.toFinset_card_of_nodup hkeeps.distinct]
    refine (Finset.card_le_card fun key hkey => ?_).trans_lt hfits
    rw [List.mem_toFinset] at hkey ⊢
    exact (hkeeps.keys key).mp hkey
  exact ⟨hkeeps, (horderly.grow hsize).keeps hlatest, rfl, Nat.mul_comm _ _⟩

/-- Outcomes of a rule at offsets that have the same home among sixteen buckets, the last but two of
them, and one that takes the place of another. -/
def colliding : List MemoEntry :=
  (List.range 14).map (fun i => (⟨16 * i, 0, 16 * i + 1, .pos i, false⟩ : MemoEntry)) ++
    [⟨32, 0, 40, .failed, true⟩]

/-- They are kept in sixteen buckets, and then in thirty-two. -/
theorem colliding_keeps : (colliding.map MemoEntry.key).toFinset.card < 2 ^ 31 ∧
    (∀ e ∈ colliding, home 16 e.pos e.rule = 13) ∧
    (colliding.foldl insert (empty 4)).capacity = 32 ∧
    (colliding.foldl insert (empty 4)).get? 32 0 = some ⟨32, 0, 40, .failed, true⟩ ∧
    (colliding.foldl insert (empty 4)).get? 208 0 = some ⟨208, 0, 209, .pos 13, false⟩ ∧
    (colliding.foldl insert (empty 4)).get? 32 1 = none := by
  have hfits : (colliding.map MemoEntry.key).toFinset.card < 2 ^ 31 :=
    (List.toFinset_card_le _).trans_lt (by decide)
  have hkeeps := (foldl_insert_keeps 4 hfits).1
  refine ⟨hfits, by decide, by decide +kernel, ?_, ?_, ?_⟩
  · rw [hkeeps.latest]
    rfl
  · rw [hkeeps.latest]
    rfl
  · rw [hkeeps.latest]
    rfl

end MemoTable

end PegMachine
