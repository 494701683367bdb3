import Mathlib.Algebra.Order.BigOperators.Group.Finset
import Mathlib.Data.Finset.Range
import Mathlib.Data.List.Sort
import PegMachine.Proofs.Sweeps

/-!
# Sweeps come to an end

Once bounds are given up, each sweep that changes anything makes a greatest number infinite or adds
a terminal to the record of a rule, and there are only so many terminals. So the sweeps end where
nothing changes, and then no rule is found to consume more than what its record allows.
-/

namespace PegMachine

namespace FirstSet

/-! ## Numbers in rising order -/

variable {ids a b : List NodeId} {id x : NodeId}

theorem mem_insert : x ∈ insert id ids ↔ x = id ∨ x ∈ ids := by
  induction ids with
  | nil => simp [insert]
  | cons other rest ih =>
    rw [insert]
    split
    · simp
    · split
      · next heq => simp [heq]
      · rw [List.mem_cons, ih, List.mem_cons]
        exact or_left_comm

theorem pairwise_insert (h : ids.Pairwise (· < ·)) : (insert id ids).Pairwise (· < ·) := by
  induction ids with
  | nil => exact List.pairwise_singleton _ _
  | cons other rest ih =>
    obtain ⟨hother, hrest⟩ := List.pairwise_cons.mp h
    rw [insert]
    split
    · next hlt =>
      refine List.pairwise_cons.mpr ⟨fun x hx => ?_, h⟩
      rcases List.mem_cons.mp hx with rfl | hx
      · exact hlt
      · exact hlt.trans (hother x hx)
    · next hge =>
      split
      · exact h
      · next hne =>
        refine List.pairwise_cons.mpr ⟨fun x hx => ?_, ih hrest⟩
        rcases mem_insert.mp hx with rfl | hx
        · exact Nat.lt_of_le_of_ne (Nat.le_of_not_lt hge) fun h => hne h.symm
        · exact hother x hx

theorem mem_merge : x ∈ merge a b ↔ x ∈ a ∨ x ∈ b := by
  unfold merge
  induction b generalizing a with
  | nil => simp
  | cons id b ih =>
    rw [List.foldl_cons, ih, mem_insert, List.mem_cons]
    tauto

theorem pairwise_merge (h : a.Pairwise (· < ·)) : (merge a b).Pairwise (· < ·) := by
  unfold merge
  induction b generalizing a with
  | nil => exact h
  | cons id b ih => exact ih (pairwise_insert h)

/-- Numbers are still there when others were merged with them. -/
theorem sublist_merge (ha : a.Pairwise (· < ·)) (hb : b.Pairwise (· < ·)) :
    b.Sublist (merge a b) := by
  have hnodup : b.Nodup := hb.imp fun h => Nat.ne_of_lt h
  exact List.sublist_of_subperm_of_pairwise
    (hnodup.subperm fun x hx => mem_merge.mpr (.inr hx)) hb (pairwise_merge ha)

/-! ## Terminals of a grammar -/

/-- Numbers of nodes of some kind, in rising order. -/
structure Lists (g : Grammar) (kind : Shape → Prop) (ids : List NodeId) : Prop where
  rising : ids.Pairwise (· < ·)
  lt : ∀ id ∈ ids, id < g.nodes.size
  kind : ∀ id ∈ ids, kind (g.shape id)

/-- A set lists terminals of a grammar by their kinds. -/
structure Sorted (g : Grammar) (f : FirstSet) : Prop where
  literals : Lists g (fun s => ∃ value ignoreCase, s = .literal value ignoreCase) f.literals
  classes : Lists g (fun s => ∃ parts inverted ignoreCase raw,
    s = .charClass parts inverted ignoreCase raw) f.classes
  regexes : Lists g (fun s => ∃ value ignoreCase multiLine raw,
    s = .regex value ignoreCase multiLine raw) f.regexes
  anys : Lists g (· = .any) f.anys

variable {g : Grammar} {kind kind' : Shape → Prop} {f f' : FirstSet}

theorem lists_nil : Lists g kind [] := ⟨.nil, nofun, nofun⟩

theorem lists_singleton (hlt : id < g.nodes.size) (h : kind (g.shape id)) :
    Lists g kind [id] := by
  refine ⟨List.pairwise_singleton _ _, fun x hx => ?_, fun x hx => ?_⟩
  · exact List.mem_singleton.mp hx ▸ hlt
  · exact List.mem_singleton.mp hx ▸ h

theorem Lists.merge (ha : Lists g kind a) (hb : Lists g kind b) :
    Lists g kind (FirstSet.merge a b) := by
  refine ⟨pairwise_merge ha.rising, fun x hx => ?_, fun x hx => ?_⟩
  · rcases mem_merge.mp hx with hx | hx
    · exact ha.lt x hx
    · exact hb.lt x hx
  · rcases mem_merge.mp hx with hx | hx
    · exact ha.kind x hx
    · exact hb.kind x hx

theorem Lists.nodup (h : Lists g kind ids) : ids.Nodup := h.rising.imp fun hlt => Nat.ne_of_lt hlt

theorem sorted_empty : Sorted g {} := ⟨lists_nil, lists_nil, lists_nil, lists_nil⟩

theorem Sorted.union (h : Sorted g f) (h' : Sorted g f') : Sorted g (f.union f') :=
  ⟨h.literals.merge h'.literals, h.classes.merge h'.classes, h.regexes.merge h'.regexes,
    h.anys.merge h'.anys⟩

/-- There are no more terminals than nodes. -/
theorem Sorted.length_nodes_le (h : Sorted g f) : f.nodes.length ≤ g.nodes.size := by
  have hdisjoint {kind kind' : Shape → Prop} {ids ids' : List NodeId} (h : Lists g kind ids)
      (h' : Lists g kind' ids') (hkinds : ∀ s, kind s → ¬kind' s) : ids.Disjoint ids' :=
    fun x hx hx' => hkinds _ (h.kind x hx) (h'.kind x hx')
  have hnodup : f.nodes.Nodup := by
    refine List.Nodup.append (.append (.append h.literals.nodup h.classes.nodup ?_)
      h.regexes.nodup ?_) h.anys.nodup ?_
    · refine hdisjoint h.literals h.classes ?_
      rintro _ ⟨_, _, rfl⟩ ⟨_, _, _, _, h⟩
      cases h
    · rw [List.disjoint_append_left]
      refine ⟨hdisjoint h.literals h.regexes ?_, hdisjoint h.classes h.regexes ?_⟩
      · rintro _ ⟨_, _, rfl⟩ ⟨_, _, _, _, h⟩
        cases h
      · rintro _ ⟨_, _, _, _, rfl⟩ ⟨_, _, _, _, h⟩
        cases h
    · rw [List.disjoint_append_left, List.disjoint_append_left]
      refine ⟨⟨hdisjoint h.literals h.anys ?_, hdisjoint h.classes h.anys ?_⟩,
        hdisjoint h.regexes h.anys ?_⟩
      · rintro _ ⟨_, _, rfl⟩ ⟨⟩
      · rintro _ ⟨_, _, _, _, rfl⟩ ⟨⟩
      · rintro _ ⟨_, _, _, _, rfl⟩ ⟨⟩
  have hlt : f.nodes ⊆ List.range g.nodes.size := by
    intro x hx
    simp only [nodes, List.mem_append] at hx
    rw [List.mem_range]
    rcases hx with ((hx | hx) | hx) | hx
    · exact h.literals.lt x hx
    · exact h.classes.lt x hx
    · exact h.regexes.lt x hx
    · exact h.anys.lt x hx
  simpa using (hnodup.subperm hlt).length_le

/-! ## Growing sets -/

/-- All terminals of one set are in another one, kind by kind. -/
structure Sub (f f' : FirstSet) : Prop where
  literals : f.literals.Sublist f'.literals
  classes : f.classes.Sublist f'.classes
  regexes : f.regexes.Sublist f'.regexes
  anys : f.anys.Sublist f'.anys

theorem Sub.refl (f : FirstSet) : f.Sub f := ⟨.refl _, .refl _, .refl _, .refl _⟩

theorem Sub.trans {f'' : FirstSet} (h : f.Sub f') (h' : f'.Sub f'') : f.Sub f'' :=
  ⟨h.literals.trans h'.literals, h.classes.trans h'.classes, h.regexes.trans h'.regexes,
    h.anys.trans h'.anys⟩

theorem Sub.length_le (h : f.Sub f') : f.nodes.length ≤ f'.nodes.length :=
  (((h.literals.append h.classes).append h.regexes).append h.anys).length_le

/-- Sets of as many terminals are the same. -/
theorem Sub.eq_of_length (h : f.Sub f') (hlength : f'.nodes.length ≤ f.nodes.length) :
    f' = f := by
  have hliterals := h.literals.length_le
  have hclasses := h.classes.length_le
  have hregexes := h.regexes.length_le
  have hanys := h.anys.length_le
  simp only [nodes, List.length_append] at hlength
  have hsame : f.literals = f'.literals := h.literals.eq_of_length (by omega)
  have hsame' : f.classes = f'.classes := h.classes.eq_of_length (by omega)
  have hsame'' : f.regexes = f'.regexes := h.regexes.eq_of_length (by omega)
  have hsame''' : f.anys = f'.anys := h.anys.eq_of_length (by omega)
  cases f
  cases f'
  rw [FirstSet.mk.injEq]
  exact ⟨hsame.symm, hsame'.symm, hsame''.symm, hsame'''.symm⟩

theorem Sorted.sub_union (h : Sorted g f) (h' : Sorted g f') : f.Sub (f'.union f) :=
  ⟨sublist_merge h'.literals.rising h.literals.rising,
    sublist_merge h'.classes.rising h.classes.rising,
    sublist_merge h'.regexes.rising h.regexes.rising, sublist_merge h'.anys.rising h.anys.rising⟩

end FirstSet

namespace Consumption

open FirstSet

variable {c c' : Context} {cur new : Consumption}

/-! ## What may come first -/

theorem sorted_foldl {combine : Consumption → Consumption → Consumption} {g : Grammar}
    (hcombine : ∀ a b, a.first.Sorted g → b.first.Sorted g → (combine a b).first.Sorted g)
    (es : List Consumption) {a : Consumption} (ha : a.first.Sorted g)
    (hes : ∀ e ∈ es, e.first.Sorted g) : (es.foldl combine a).first.Sorted g := by
  induction es generalizing a with
  | nil => exact ha
  | cons e es ih =>
    exact ih (hcombine a e ha (hes e List.mem_cons_self)) fun e' he' =>
      hes e' (List.mem_cons_of_mem _ he')

theorem sorted_ofChoice {g : Grammar} {es : List Consumption} (hes : ∀ e ∈ es, e.first.Sorted g) :
    (ofChoice es).first.Sorted g := by
  cases es with
  | nil => exact sorted_empty
  | cons first rest =>
    exact sorted_foldl (fun _ _ ha hb => ha.union hb) rest (hes first List.mem_cons_self)
      fun e he => hes e (List.mem_cons_of_mem _ he)

theorem sorted_ofSequence {g : Grammar} {es : List Consumption}
    (hes : ∀ e ∈ es, e.first.Sorted g) : (ofSequence es).first.Sorted g := by
  refine sorted_foldl (fun a b ha hb => ?_) es sorted_empty hes
  unfold andThen
  dsimp only
  split
  · exact ha.union hb
  · exact ha

theorem sorted_range {g : Grammar} {min : Nat} {max : Option Nat} {e d : Consumption}
    (he : e.first.Sorted g) : (range min max e d).first.Sorted g := by
  have hfirst (most : MaxCount) :
      FirstSet.Sorted g (if most = .finite 0 then {} else e.first) := by
    split
    · exact sorted_empty
    · exact he
  exact hfirst _

/-- What is found for nodes lists terminals by their kinds if records do. -/
theorem sorted_ofNode (hc : ∀ index, (c.record index).first.Sorted c.grammar) (depth : Nat)
    (id : NodeId) : (ofNode c depth id).first.Sorted c.grammar := by
  induction depth generalizing id with
  | zero => exact sorted_empty
  | succ depth ih =>
    have hlt (h : c.grammar.shape id ≠ .epsilon) : id < c.grammar.nodes.size := by
      by_contra hge
      rw [Grammar.shape, Grammar.node, Array.getD_eq_getD_getElem?,
        Array.getElem?_eq_none (Nat.le_of_not_lt hge)] at h
      exact h rfl
    have hall (es : List NodeId) : ∀ e ∈ es.map (ofNode c depth), e.first.Sorted c.grammar := by
      intro e he
      obtain ⟨e, -, rfl⟩ := List.mem_map.mp he
      exact ih e
    cases hshape : c.grammar.shape id
    case ruleRef name =>
      rw [ofNode_ruleRef hshape]
      cases c.targets[id]?.join with
      | none => exact sorted_empty
      | some target => exact hc target
    case epsilon =>
      simp only [ofNode, hshape]
      exact sorted_empty
    all_goals
      have hlt := hlt (by rw [hshape]; rintro ⟨⟩)
      simp only [ofNode, hshape]
    case choice es => exact sorted_ofChoice (hall es)
    case sequence es => exact sorted_ofSequence (hall es)
    case literal value ignoreCase =>
      refine ⟨?_, lists_nil, lists_nil, lists_nil⟩
      split
      · exact lists_singleton hlt ⟨_, _, hshape⟩
      · exact lists_nil
    case charClass parts inverted ignoreCase raw =>
      exact ⟨lists_nil, lists_singleton hlt ⟨_, _, _, _, hshape⟩, lists_nil, lists_nil⟩
    case regex value ignoreCase multiLine raw =>
      exact ⟨lists_nil, lists_nil, lists_singleton hlt ⟨_, _, _, _, hshape⟩, lists_nil⟩
    case any => exact ⟨lists_nil, lists_nil, lists_nil, lists_singleton hlt hshape⟩
    case range min max e delimiter => exact sorted_range (ih e)
    case named name e => exact ih e
    case action e source => exact ih e
    case labeled label e => exact ih e
    case text e => exact ih e
    case optional e => exact ih e
    case zeroOrMore e => exact ih e
    case oneOrMore e => exact ih e
    all_goals exact sorted_empty

/-! ## Records that widen -/

/-- One record gives up some of the bounds of another one. -/
structure Widens (cur new : Consumption) : Prop where
  min : new.min = cur.min
  max : new.max = cur.max ∨ new.max = .infinite
  first : cur.first.Sub new.first

/-- How much of a greatest number was given up. -/
def maxWeight (m : MaxCount) : Nat := if m = .infinite then 1 else 0

/-- How much of a record was given up. -/
def weight (c : Consumption) : Nat := maxWeight c.max + c.first.nodes.length

theorem Widens.refl (c : Consumption) : c.Widens c := ⟨rfl, .inl rfl, .refl _⟩

theorem Widens.trans {c c' c'' : Consumption} (h : c.Widens c') (h' : c'.Widens c'') :
    c.Widens c'' := by
  refine ⟨h'.min.trans h.min, ?_, h.first.trans h'.first⟩
  rcases h'.max with hmax | hmax
  · rw [hmax]
    exact h.max
  · exact .inr hmax

theorem Widens.maxWeight_le (h : cur.Widens new) : maxWeight cur.max ≤ maxWeight new.max := by
  rcases h.max with hmax | hmax
  · rw [hmax]
  · rw [hmax, maxWeight]
    split <;> decide

theorem Widens.weight_le (h : cur.Widens new) : cur.weight ≤ new.weight :=
  Nat.add_le_add h.maxWeight_le h.first.length_le

/-- Nothing was given up if the weight is the same. -/
theorem Widens.eq_of_weight (h : cur.Widens new) (hweight : new.weight ≤ cur.weight) :
    new = cur := by
  have hmaxWeight := h.maxWeight_le
  have hlength := h.first.length_le
  unfold weight at hweight
  have hmax : new.max = cur.max := by
    rcases h.max with hsame | hinfinite
    · exact hsame
    · by_contra hne
      have hnew : maxWeight new.max = 1 := if_pos hinfinite
      have hcur : maxWeight cur.max = 0 := if_neg fun hcur => hne (hinfinite.trans hcur.symm)
      omega
  have hfirst : new.first = cur.first := h.first.eq_of_length (by omega)
  cases cur
  cases new
  obtain rfl := h.min
  obtain rfl := hmax
  obtain rfl := hfirst
  rfl

/-- A record that was found anew when bounds are given up gives up some of them. -/
theorem widens_settle {g : Grammar} (hcur : cur.first.Sorted g) (hnew : new.first.Sorted g) :
    cur.Widens (settle true cur new) := by
  unfold settle
  split
  · exact .refl cur
  · rw [if_pos rfl]
    refine ⟨rfl, ?_, hcur.sub_union hnew⟩
    dsimp only
    split
    · next h => exact .inl h
    · exact .inr rfl

theorem sorted_settle {g : Grammar} (widen : Bool) (hcur : cur.first.Sorted g)
    (hnew : new.first.Sorted g) : (settle widen cur new).first.Sorted g := by
  unfold settle
  split
  · exact hcur
  · split
    · exact hnew.union hcur
    · exact hnew

/-! ## Sweeps -/

/-- There is a record for each rule, which lists terminals by their kinds. -/
structure Tidy (c : Context) : Prop where
  size : c.records.size = c.grammar.rules.length
  sorted : ∀ index, (c.record index).first.Sorted c.grammar

theorem Tidy.revise (h : Tidy c) (widen : Bool) (p : Rule × Nat) :
    Tidy (revise widen c p) := by
  refine ⟨Array.size_setIfInBounds.trans h.size, fun index => ?_⟩
  rw [record_revise]
  split
  · exact sorted_settle widen (h.sorted index) (sorted_ofNode h.sorted _ _)
  · exact h.sorted index

theorem Tidy.widens_revise (h : Tidy c) (p : Rule × Nat) (index : Nat) :
    (c.record index).Widens ((Consumption.revise true c p).record index) := by
  rw [record_revise]
  split
  · exact widens_settle (h.sorted index) (sorted_ofNode h.sorted _ _)
  · exact .refl _

theorem Tidy.foldl_revise (h : Tidy c) (widen : Bool) (ps : List (Rule × Nat)) :
    Tidy (ps.foldl (Consumption.revise widen) c) ∧
      (ps.foldl (Consumption.revise widen) c).grammar = c.grammar ∧
      (widen = true → ∀ index,
        (c.record index).Widens ((ps.foldl (Consumption.revise widen) c).record index)) := by
  induction ps generalizing c with
  | nil => exact ⟨h, rfl, fun _ _ => .refl _⟩
  | cons p ps ih =>
    obtain ⟨htidy, hgrammar, hwidens⟩ := ih (h.revise widen p)
    refine ⟨htidy, hgrammar, ?_⟩
    rintro rfl index
    exact (h.widens_revise p index).trans (hwidens rfl index)

/-- How much was given up by all rules. -/
def totalWeight (c : Context) : Nat :=
  ∑ index ∈ Finset.range c.grammar.rules.length, (c.record index).weight

theorem Tidy.totalWeight_le (h : Tidy c) :
    totalWeight c ≤ c.grammar.rules.length * (c.grammar.nodes.size + 1) := by
  have hrule (index : Nat) : (c.record index).weight ≤ c.grammar.nodes.size + 1 := by
    have hnodes := (h.sorted index).length_nodes_le
    have hmax : maxWeight (c.record index).max ≤ 1 := by
      unfold maxWeight
      split <;> decide
    rw [weight]
    omega
  have hsum := Finset.sum_le_card_nsmul (Finset.range c.grammar.rules.length)
    (fun index => (c.record index).weight) (c.grammar.nodes.size + 1) fun index _ => hrule index
  rwa [Finset.card_range] at hsum

/-- A sweep that changes something when bounds are given up gives something up. -/
theorem Tidy.totalWeight_lt (h : Tidy c) (hchanges : (sweep c true).records ≠ c.records) :
    totalWeight c < totalWeight (sweep c true) := by
  rw [sweep_eq] at hchanges ⊢
  obtain ⟨htidy, hgrammar, hwidens⟩ := h.foldl_revise true c.grammar.rules.zipIdx
  generalize c.grammar.rules.zipIdx.foldl (Consumption.revise true) c = c' at *
  have hwidens := hwidens rfl
  unfold totalWeight
  rw [hgrammar]
  refine lt_of_le_of_ne (Finset.sum_le_sum fun index _ => (hwidens index).weight_le) fun hsum => ?_
  -- If nothing is given up in all, nothing is given up by any rule, so nothing changes.
  rw [Finset.sum_eq_sum_iff_of_le fun index _ => (hwidens index).weight_le] at hsum
  refine hchanges (Array.ext ?_ fun index hlt' hlt => ?_)
  · rw [htidy.size, hgrammar, h.size]
  · have hindex : index ∈ Finset.range c.grammar.rules.length := by
      rw [Finset.mem_range, ← h.size]
      exact hlt
    have heq := (hwidens index).eq_of_weight (hsum index hindex).ge
    simpa [Context.record, Array.getD, hlt, hlt'] using heq

theorem tidy_start (g : Grammar) (f : Facts) : Tidy (start g f) := by
  refine ⟨Array.size_replicate, fun index => ?_⟩
  have hrecord : (start g f).record index = nothing := by
    simp only [Context.record, start, Array.getD_eq_getD_getElem?, Array.getElem?_replicate]
    split <;> rfl
  rw [hrecord]
  exact sorted_empty

/-! ## The sweeps in their order -/

/-- What is known after a number of sweeps, if they never stopped. -/
def after (g : Grammar) (f : Facts) : Nat → Context
  | 0 => start g f
  | n + 1 => sweep (after g f n) (patience g ≤ n)

/-- The loop ends with this many sweeps: the next one is the first that changes nothing. -/
structure EndsAfter (g : Grammar) (f : Facts) (n : Nat) : Prop where
  settled : (after g f (n + 1)).records = (after g f n).records
  changes : ∀ m < n, (after g f (m + 1)).records ≠ (after g f m).records

theorem tidy_after (g : Grammar) (f : Facts) (n : Nat) :
    Tidy (after g f n) ∧ (after g f n).grammar = g := by
  induction n with
  | zero => exact ⟨tidy_start g f, rfl⟩
  | succ n ih =>
    obtain ⟨htidy, hgrammar, -⟩ :=
      ih.1.foldl_revise (decide (patience g ≤ n)) (after g f n).grammar.rules.zipIdx
    exact ⟨htidy, hgrammar.trans ih.2⟩

/-- The sweeps end where nothing changes, if there is fuel for the sweeps before bounds are given up
and for what is given up then. -/
theorem endsAfter_of_fuel {g : Grammar} {f : Facts} {n fuel : Nat}
    (hfuel : g.rules.length * (g.nodes.size + 1) + (patience g - n) <
      fuel + if patience g ≤ n then totalWeight (after g f n) else 0)
    (hchanges : ∀ m < n, (after g f (m + 1)).records ≠ (after g f m).records) :
    ∃ m, EndsAfter g f m ∧ sweeps (after g f n) n fuel = after g f m := by
  obtain ⟨htidy, hgrammar⟩ := tidy_after g f n
  induction fuel generalizing n with
  | zero =>
    have hle := htidy.totalWeight_le
    rw [hgrammar] at hle
    split at hfuel <;> omega
  | succ fuel ih =>
    simp only [Consumption.sweeps, hgrammar]
    split
    · next hsame => exact ⟨n, ⟨hsame, hchanges⟩, rfl⟩
    · next hdiffers =>
      obtain ⟨htidy', hgrammar'⟩ := tidy_after g f (n + 1)
      refine ih ?_ (fun m hm => ?_) htidy' hgrammar'
      · by_cases hdone : patience g ≤ n
        · rw [decide_eq_true hdone] at hdiffers
          have hlt := htidy.totalWeight_lt hdiffers
          rw [if_pos hdone] at hfuel
          rw [if_pos (Nat.le_succ_of_le hdone), after, decide_eq_true hdone]
          omega
        · rw [if_neg hdone] at hfuel
          split <;> omega
      · rcases Nat.lt_succ_iff_lt_or_eq.mp hm with hm | rfl
        · exact hchanges m hm
        · exact hdiffers

/-- The loop ends, and nothing cuts it short. -/
theorem exists_endsAfter (g : Grammar) (f : Facts) :
    ∃ n, EndsAfter g f n ∧ solve g f = after g f n := by
  refine endsAfter_of_fuel (n := 0) ?_ nofun
  rw [if_neg (by simp [patience])]
  simp only [sweepBound, Nat.mul_add]
  omega

/-! ## In the end -/

/-- Where a sweep changes nothing, it finds the record of every rule as it is. -/
theorem settle_of_foldl_revise {widen : Bool} {ps : List (Rule × Nat)}
    (hps : (ps.map (·.2)).Nodup) (hlt : ∀ p ∈ ps, p.2 < c.records.size)
    (h : (ps.foldl (revise widen) c).records = c.records) :
    ∀ p ∈ ps, settle widen (c.record p.2) (ofRule c p.1) = c.record p.2 := by
  induction ps generalizing c with
  | nil => exact nofun
  | cons p ps ih =>
    obtain ⟨hp, hps⟩ := List.nodup_cons.mp hps
    rw [List.foldl_cons] at h
    -- The record is not touched by what comes afterwards.
    have hlater (qs : List (Rule × Nat)) (c' : Context) (hqs : p.2 ∉ qs.map (·.2)) :
        (qs.foldl (revise widen) c').record p.2 = c'.record p.2 := by
      induction qs generalizing c' with
      | nil => rfl
      | cons q qs ih =>
        rw [List.map_cons, List.mem_cons, not_or] at hqs
        rw [List.foldl_cons, ih _ hqs.2, record_revise, if_neg fun h => hqs.1 h.1]
    have hfirst : settle widen (c.record p.2) (ofRule c p.1) = c.record p.2 := by
      have hrecord := hlater ps (revise widen c p) hp
      rw [record_revise, if_pos ⟨rfl, hlt p List.mem_cons_self⟩] at hrecord
      rw [← hrecord, Context.record, Context.record, h]
    have hsame : revise widen c p = c := by
      have hrecords : c.records.setIfInBounds p.2 (c.record p.2) = c.records := by
        refine Array.ext (by simp) fun i hi hi' => ?_
        rw [Array.getElem_setIfInBounds]
        split
        · next heq =>
          subst heq
          simp [Context.record, hi']
        · rfl
      rw [revise, hfirst, hrecords]
    rw [hsame] at h
    intro q hq
    rcases List.mem_cons.mp hq with rfl | hq
    · exact hfirst
    · exact ih hps (fun q hq => hlt q (List.mem_cons_of_mem _ hq)) h q hq

/-- A record that is found as it is allows all that was found. -/
theorem le_of_settle {widen : Bool} (h : settle widen cur new = cur) : new.max.le cur.max = true := by
  have hrefl (m : MaxCount) : m.le m = true := by
    cases m with
    | finite n => exact decide_eq_true (Nat.le_refl n)
    | infinite => rfl
  have hinfinite (m : MaxCount) : m.le .infinite = true := by cases m <;> rfl
  unfold settle at h
  split at h
  · next heq => exact heq ▸ hrefl _
  · split at h
    · split at h
      · next hmax => exact hmax ▸ hrefl _
      · rw [← congrArg Consumption.max h]
        exact hinfinite _
    · exact h ▸ hrefl _

/-- The records in the end are found as they are. -/
theorem settle_ofRule_solve (g : Grammar) (f : Facts) {index : Nat} {r : Rule}
    (hr : g.rules[index]? = some r) :
    ∃ widen, settle widen ((solve g f).record index) (ofRule (solve g f) r) =
      (solve g f).record index := by
  obtain ⟨n, hends, hsolve⟩ := exists_endsAfter g f
  obtain ⟨htidy, hgrammar⟩ := tidy_after g f n
  have hend := hends.settled
  rw [← hsolve] at htidy hgrammar
  rw [after, ← hsolve, sweep_eq, hgrammar] at hend
  have hsize : (solve g f).records.size = g.rules.length := by rw [htidy.size, hgrammar]
  have hnodup : (g.rules.zipIdx.map (·.2)).Nodup := by
    rw [List.zipIdx_map_snd]
    exact List.nodup_range'
  have hlt : ∀ p ∈ g.rules.zipIdx, p.2 < (solve g f).records.size := by
    intro p hp
    rw [hsize]
    exact (List.getElem?_eq_some_iff.mp (List.mk_mem_zipIdx_iff_getElem?.mp hp)).1
  exact ⟨_, settle_of_foldl_revise hnodup hlt hend (r, index)
    (List.mk_mem_zipIdx_iff_getElem?.mpr hr)⟩

/-- The records in the end allow what the rules are found to consume. -/
theorem max_ofRule_solve (g : Grammar) (f : Facts) {index : Nat} {r : Rule}
    (hr : g.rules[index]? = some r) :
    (ofRule (solve g f) r).max.le ((solve g f).record index).max = true := by
  obtain ⟨_, hsettle⟩ := settle_ofRule_solve g f hr
  exact le_of_settle hsettle

end Consumption

end PegMachine
