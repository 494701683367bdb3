import PegMachine.Value

/-!
# The memo table

The outcomes of memoized rules by offset and rule: a hash table with open addressing. Buckets
hold places in a list of entries, in words of 32 bits with a sign, and a key is found by looking
into bucket after bucket from the one that its hash names. There are a power of two of them, so
that a bit mask takes the place of a remainder, and some are always empty, so that every search
ends.

An entry remembers whether it was made while failures were not reported. What such an entry stands
for reported nothing, so it is no substitute for a run that has to report.
-/

namespace PegMachine

/-- The outcome of a rule at an offset. -/
structure MemoEntry where
  /-- The offset where the rule was invoked. -/
  pos : Nat
  /-- The index of the rule. -/
  rule : Nat
  /-- The offset after the rule. -/
  nextPos : Nat
  /-- The result of the rule. -/
  result : Slot
  /-- Whether failures were not reported. -/
  silent : Bool
  deriving Inhabited

/-- The table. -/
structure MemoTable where
  /-- The place of an entry for each bucket; a negative number in an empty one. -/
  buckets : Array Int32
  /-- The entries in the order in which their keys came. -/
  entries : Array MemoEntry
  /-- The number of buckets. -/
  capacity : Nat

namespace MemoTable

/-- What is in an empty bucket. -/
def vacancy : Int32 := -1

/-- The place that is in a bucket, unless the bucket is empty. -/
def place? (bucket : Int32) : Option Nat :=
  if bucket < 0 then none else some bucket.toInt.toNat

/-- An empty table of some capacity. -/
def withCapacity (capacity : Nat) : MemoTable where
  buckets := Array.replicate capacity vacancy
  entries := #[]
  capacity := capacity

/-- An empty table for an estimated number of entries. -/
def empty (estimate : Nat) : MemoTable := withCapacity (max estimate.nextPowerOfTwo 16)

/-- An empty table for an input of some length and a number of memoized rules. -/
def forInput (length rules : Nat) : MemoTable :=
  empty (max 64 (min 500000 (length / 10 * min rules 5)))

/-- The hash of a key. -/
def hash (pos rule : Nat) : UInt64 :=
  let h : UInt64 := 0x811c9dc5 ^^^ UInt64.ofNat pos
  let h := h * 0x01000193 ^^^ UInt64.ofNat rule
  h * 0x01000193

/-- The bucket where the search for a key starts. -/
def home (capacity pos rule : Nat) : Nat := (hash pos rule).toNat &&& (capacity - 1)

/-- The bucket after a bucket; the first one comes after the last one. -/
def next (capacity bucket : Nat) : Nat := (bucket + 1) &&& (capacity - 1)

/-- Whether an entry is the one for a key. -/
def isFor (pos rule : Nat) (e : MemoEntry) : Bool := e.pos == pos && e.rule == rule

/-- How the search for a key ends. -/
inductive Probe where
  /-- At the place of the entry for the key. -/
  | found (place : Nat)
  /-- At an empty bucket, where the key belongs. -/
  | vacant (bucket : Nat)
  /-- Nowhere: every bucket is taken by another key, or a bucket or its entry does not exist. -/
  | lost
  deriving DecidableEq, Repr

/-- How the search for a key ends at a bucket, unless it goes on to the next one. -/
def look (t : MemoTable) (pos rule bucket : Nat) : Option Probe :=
  match t.buckets[bucket]? with
  | none => some .lost
  | some content =>
    match place? content with
    | none => some (.vacant bucket)
    | some place =>
      match t.entries[place]? with
      | none => some .lost
      | some e => if isFor pos rule e then some (.found place) else none

/-- Look for a key in at most `n` buckets from a bucket on. -/
def probe (t : MemoTable) (pos rule : Nat) : Nat → Nat → Probe
  | 0, _ => .lost
  | n + 1, bucket =>
    match t.look pos rule bucket with
    | some ending => ending
    | none => probe t pos rule n (next t.capacity bucket)

/-- Search for a key. A search that has come to every bucket would go on forever. -/
def search (t : MemoTable) (pos rule : Nat) : Probe :=
  t.probe pos rule t.capacity (home t.capacity pos rule)

/-- The entry for a key. -/
def get? (t : MemoTable) (pos rule : Nat) : Option MemoEntry :=
  match t.search pos rule with
  | .found place => t.entries[place]?
  | _ => none

/-- The first empty bucket among at most `n` from a bucket on, of so many buckets. -/
def vacantFrom (capacity : Nat) (buckets : Array Int32) : Nat → Nat → Nat
  | 0, bucket => bucket
  | n + 1, bucket =>
    if (buckets[bucket]?.bind place?).isSome then
      vacantFrom capacity buckets n (next capacity bucket)
    else bucket

/-- Put the place of an entry, whose key is new, into one of so many buckets. -/
def seat (capacity : Nat) (buckets : Array Int32) (place : Nat) (e : MemoEntry) : Array Int32 :=
  buckets.setIfInBounds
    (vacantFrom capacity buckets capacity (home capacity e.pos e.rule)) (Int32.ofNat place)

/-- Seat entries one after the other, the first at a place. -/
def seatAll (capacity : Nat) (buckets : Array Int32) (place : Nat) :
    List MemoEntry → Array Int32
  | [] => buckets
  | e :: rest => seatAll capacity (seat capacity buckets place e) (place + 1) rest

/-- The same entries over twice as many buckets. -/
def grow (t : MemoTable) : MemoTable where
  buckets :=
    let capacity := t.capacity * 2
    seatAll capacity (Array.replicate capacity vacancy) 0 t.entries.toList
  entries := t.entries
  capacity := t.capacity * 2

/-- Whether more than three quarters of the buckets are taken. -/
def isCrowded (t : MemoTable) : Bool := 3 * t.capacity < 4 * t.entries.size

/-- Keep an entry in place of any entry for the same key. -/
def insert (t : MemoTable) (e : MemoEntry) : MemoTable :=
  let t := if t.isCrowded then t.grow else t
  match t.search e.pos e.rule with
  | .found place => { t with entries := t.entries.setIfInBounds place e }
  | .vacant bucket =>
    { t with
      buckets := t.buckets.setIfInBounds bucket (Int32.ofNat t.entries.size)
      entries := t.entries.push e }
  | .lost => t

end MemoTable

end PegMachine
