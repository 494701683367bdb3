import Mathlib.Data.List.Sigma
import PegMachine.Proofs.Linking
import PegMachine.Proofs.Reaching
import PegMachine.Proofs.Sessions
import PegMachine.Session.Checks

/-!
# Removing rules

The rules that are left when some are removed are rules of the grammar from before, and the first
rule with a name is still the first one if it is not removed. Rules that cannot be reached from a
start rule are dropped; the others have names of their own, as only the first rule with a name can
be referred to.
-/

namespace PegMachine

/-- A rule without its expression. -/
def Rule.header (r : Rule) : String × List Annotation × Option Location :=
  (r.name, r.annotations, r.location)

namespace Grammar

variable {g : Grammar} {indices : List Nat} {index : Nat} {r : Rule} {name : String}

theorem ruleIndex?_eq_some : g.ruleIndex? name = some index ↔
    ∃ r, g.rules[index]? = some r ∧ r.name = name ∧
      ∀ j < index, ∀ r', g.rules[j]? = some r' → r'.name ≠ name := by
  rw [ruleIndex?, List.findIdx?_eq_some_iff_getElem]
  constructor
  · rintro ⟨hlt, hname, hbefore⟩
    refine ⟨_, List.getElem?_eq_getElem hlt, by simpa using hname, fun j hj r' hr' => ?_⟩
    obtain ⟨hjlt, rfl⟩ := List.getElem?_eq_some_iff.mp hr'
    simpa using hbefore j hj
  · rintro ⟨r, hr, hname, hbefore⟩
    obtain ⟨hlt, rfl⟩ := List.getElem?_eq_some_iff.mp hr
    refine ⟨hlt, by simpa using hname, fun j hj => ?_⟩
    simpa using hbefore j hj _ (List.getElem?_eq_getElem (hj.trans hlt))

/-- The rule that a name stands for has that name. -/
theorem name_of_ruleIndex? (h : g.ruleIndex? name = some index) :
    ∃ r, g.rules[index]? = some r ∧ r.name = name := by
  obtain ⟨r, hr, hname, -⟩ := ruleIndex?_eq_some.mp h
  exact ⟨r, hr, hname⟩

/-- All rules have names of their own. -/
def UniqueNames (g : Grammar) : Prop := (g.rules.map (·.name)).Nodup

theorem UniqueNames.ruleIndex?_eq (h : g.UniqueNames) (hr : g.rules[index]? = some r) :
    g.ruleIndex? r.name = some index := by
  refine ruleIndex?_eq_some.mpr ⟨r, hr, rfl, fun j hj r' hr' hname => ?_⟩
  have hj' : (g.rules.map (·.name))[j]? = some r.name := by simp [hr', hname]
  have hindex' : (g.rules.map (·.name))[index]? = some r.name := by simp [hr]
  obtain ⟨hjlt, hjname⟩ := List.getElem?_eq_some_iff.mp hj'
  obtain ⟨hlt, hname'⟩ := List.getElem?_eq_some_iff.mp hindex'
  have hsame := (List.Nodup.getElem_inj_iff h).mp (hjname.trans hname'.symm)
  exact absurd hsame (Nat.ne_of_lt hj)

theorem UniqueNames.rule_eq {r' : Rule} (h : g.UniqueNames) (hr : r ∈ g.rules) (hr' : r' ∈ g.rules)
    (hname : r.name = r'.name) : r = r' :=
  List.inj_on_of_nodup_map h hr hr' hname

/-! ## Rules that are left -/

theorem mem_removeRules : r ∈ (g.removeRules indices).rules ↔
    ∃ index, g.rules[index]? = some r ∧ index ∉ indices := by
  simp [removeRules, List.mem_zipIdx_iff_getElem?]

theorem removeRules_nil : g.removeRules [] = g := by
  simp [removeRules]

theorem mem_of_mem_removeRules (h : r ∈ (g.removeRules indices).rules) : r ∈ g.rules := by
  obtain ⟨index, hr, -⟩ := mem_removeRules.mp h
  exact List.mem_of_getElem? hr

theorem HasTrees.removeRules (h : g.HasTrees) (indices : List Nat) :
    (g.removeRules indices).HasTrees := by
  intro r hr
  exact (h r (mem_of_mem_removeRules hr)).congr (by rfl) (by intros; rfl)

theorem UniqueNames.removeRules (h : g.UniqueNames) (indices : List Nat) :
    (g.removeRules indices).UniqueNames := by
  refine List.Nodup.sublist (List.Sublist.map _ ?_) h
  have hsub := (List.filter_sublist (p := fun p : Rule × Nat => !indices.contains p.2)
    (l := g.rules.zipIdx)).map Prod.fst
  rwa [List.zipIdx_map_fst] at hsub

/-- If only first rules are left, they have names of their own. -/
theorem uniqueNames_removeRules
    (h : ∀ (index : Nat) (r : Rule), g.rules[index]? = some r → index ∉ indices →
      g.ruleIndex? r.name = some index) : (g.removeRules indices).UniqueNames := by
  rw [UniqueNames, Grammar.removeRules, List.map_map]
  refine List.Nodup.map_on ?_ (List.Nodup.filter _ (.of_map _ (List.nodup_zipIdx_map_snd g.rules)))
  rintro ⟨r, i⟩ hri ⟨r', j⟩ hrj hname
  have hkept {r : Rule} {i : Nat} (hri : (r, i) ∈ g.rules.zipIdx.filter
      fun p => !indices.contains p.2) : g.rules[i]? = some r ∧ i ∉ indices := by
    simpa [List.mem_zipIdx_iff_getElem?] using hri
  obtain ⟨hr, hi⟩ := hkept hri
  obtain ⟨hr', hj⟩ := hkept hrj
  have hindex := h i r hr hi
  rw [show r.name = r'.name from hname, h j r' hr' hj] at hindex
  cases hindex
  rw [hr] at hr'
  cases hr'
  rfl

/-! ## Order -/

/-- A grammar has the rules of another one with some indices, in the same order. What their
expressions are may have changed. -/
structure Selects (g g' : Grammar) (kept : List Nat) : Prop where
  ordered : kept.Pairwise (· < ·)
  rules : g'.rules.map (fun r => some r.header) = kept.map fun i => (g.rules[i]?).map Rule.header

/-- The indices of the rules that are left when some are removed. -/
def kept (g : Grammar) (indices : List Nat) : List Nat :=
  (List.range g.rules.length).filter fun i => !indices.contains i

theorem mem_kept : index ∈ g.kept indices ↔ index < g.rules.length ∧ index ∉ indices := by
  simp [kept]

theorem rules_removeRules (g : Grammar) (indices : List Nat) :
    (g.removeRules indices).rules.map some = (g.kept indices).map (g.rules[·]?) := by
  have hindices : (g.rules.zipIdx.filter fun p => !indices.contains p.2).map Prod.snd =
      g.kept indices := by
    have hsnd : g.rules.zipIdx.map Prod.snd = List.range g.rules.length := by
      simp [List.range_eq_range']
    rw [kept, ← hsnd, List.filter_map]
    rfl
  rw [← hindices, removeRules, List.map_map, List.map_map]
  refine List.map_congr_left fun p hp => ?_
  exact (List.mem_zipIdx_iff_getElem?.mp (List.mem_filter.mp hp).1).symm

theorem selects_removeRules (g : Grammar) (indices : List Nat) :
    g.Selects (g.removeRules indices) (g.kept indices) := by
  refine ⟨List.pairwise_lt_range.filter _, ?_⟩
  have hrules := congrArg (List.map (Option.map Rule.header)) (rules_removeRules g indices)
  rwa [List.map_map, List.map_map] at hrules

namespace Selects

variable {g' g'' : Grammar} {kept kept' : List Nat} {place : Nat} {r' : Rule}

theorem length_eq (h : g.Selects g' kept) : g'.rules.length = kept.length := by
  simpa using congrArg List.length h.rules

/-- A grammar has all of its rules. -/
theorem refl (g : Grammar) : g.Selects g (List.range g.rules.length) := by
  refine ⟨List.pairwise_lt_range, List.ext_getElem? fun i => ?_⟩
  simp only [List.getElem?_map]
  by_cases hlt : i < g.rules.length
  · rw [List.getElem?_range hlt, List.getElem?_eq_getElem hlt]
    simp [hlt]
  · rw [List.getElem?_eq_none (Nat.le_of_not_lt hlt), List.getElem?_eq_none (by simpa using hlt)]
    rfl

/-- What the expressions of the other grammar are does not matter. -/
theorem congr {g₀ : Grammar} (h : g.Selects g' kept)
    (hheaders : g₀.rules.map Rule.header = g.rules.map Rule.header) : g₀.Selects g' kept := by
  refine ⟨h.ordered, h.rules.trans (List.map_congr_left fun i _ => ?_)⟩
  rw [← List.getElem?_map, ← List.getElem?_map, hheaders]

/-- Each rule is one of the other grammar. -/
theorem getElem?_eq (h : g.Selects g' kept) (hr' : g'.rules[place]? = some r') :
    ∃ i r, kept[place]? = some i ∧ g.rules[i]? = some r ∧ r'.header = r.header := by
  have hplace := congrArg (·[place]?) h.rules
  simp only [List.getElem?_map, hr', Option.map_some] at hplace
  obtain ⟨i, hi, hheader⟩ := Option.map_eq_some_iff.mp hplace.symm
  obtain ⟨r, hr, hsame⟩ := Option.map_eq_some_iff.mp hheader
  exact ⟨i, r, hi, hr, hsame.symm⟩

theorem exists_rule (h : g.Selects g' kept) (hplace : kept[place]? = some index) :
    ∃ r', g'.rules[place]? = some r' := by
  obtain ⟨hlt, -⟩ := List.getElem?_eq_some_iff.mp hplace
  exact ⟨_, List.getElem?_eq_getElem (h.length_eq ▸ hlt)⟩

theorem trans (h : g.Selects g' kept) (h' : g'.Selects g'' kept') :
    g.Selects g'' (kept'.map (kept.getD · 0)) := by
  have hlt (i : Nat) (hi : i ∈ kept') : i < kept.length := by
    obtain ⟨place, hplace⟩ := List.mem_iff_getElem?.mp hi
    obtain ⟨r'', hr''⟩ := h'.exists_rule hplace
    obtain ⟨j, r', hj, hr', -⟩ := h'.getElem?_eq hr''
    rw [hplace] at hj
    cases hj
    rw [← h.length_eq]
    exact (List.getElem?_eq_some_iff.mp hr').1
  have hgetD (i : Nat) (hi : i < kept.length) : kept.getD i 0 = kept[i] := by
    rw [List.getD_eq_getElem?_getD, List.getElem?_eq_getElem hi, Option.getD_some]
  constructor
  · refine List.pairwise_map.mpr (h'.ordered.imp_of_mem fun {i j} hi hj hij => ?_)
    rw [hgetD i (hlt i hi), hgetD j (hlt j hj)]
    exact List.pairwise_iff_getElem.mp h.ordered i j _ _ hij
  · rw [h'.rules, List.map_map]
    refine List.map_congr_left fun i hmem => ?_
    have hi := congrArg (·[i]?) h.rules
    simp only [List.getElem?_map] at hi
    rw [Function.comp_apply, hgetD i (hlt i hmem)]
    rw [List.getElem?_eq_getElem (hlt i hmem), Option.map_some] at hi
    obtain ⟨r', hr', hheader⟩ := Option.map_eq_some_iff.mp hi
    rw [hr', ← hheader]
    rfl

/-- The first rule with a name stays the first one, if it is kept. -/
theorem ruleIndex?_eq (h : g.Selects g' kept) (hname : g.ruleIndex? name = some index)
    (hkept : index ∈ kept) :
    ∃ place, g'.ruleIndex? name = some place ∧ kept[place]? = some index := by
  obtain ⟨place, hplace⟩ := List.mem_iff_getElem?.mp hkept
  obtain ⟨r, hr, rfl, hbefore⟩ := ruleIndex?_eq_some.mp hname
  obtain ⟨r', hr'⟩ := h.exists_rule hplace
  obtain ⟨i, r₀, hi, hr₀, hheader⟩ := h.getElem?_eq hr'
  rw [hplace] at hi
  cases hi
  rw [hr] at hr₀
  cases hr₀
  refine ⟨place, ruleIndex?_eq_some.mpr ⟨r', hr', congrArg Prod.fst hheader, ?_⟩, hplace⟩
  intro j hj s' hs'
  obtain ⟨i, s, hi, hs, hsame⟩ := h.getElem?_eq hs'
  obtain ⟨hplacelt, hplaceeq⟩ := List.getElem?_eq_some_iff.mp hplace
  obtain ⟨hjlt, hjeq⟩ := List.getElem?_eq_some_iff.mp hi
  have hlt := List.pairwise_iff_getElem.mp h.ordered j place hjlt hplacelt hj
  rw [hjeq, hplaceeq] at hlt
  have hne := hbefore i hlt s hs
  rwa [show s.name = s'.name from (congrArg Prod.fst hsame).symm] at hne

end Selects

/-- The first rules with some names are among those that are kept. -/
def KeepsFirst (g g' : Grammar) (kept : List Nat) (names : List String) : Prop :=
  ∀ name ∈ names, ∃ place index, g'.ruleIndex? name = some place ∧
    g.ruleIndex? name = some index ∧ kept[place]? = some index

theorem KeepsFirst.trans {g' g'' : Grammar} {kept kept' : List Nat} {names : List String}
    (h : g.KeepsFirst g' kept names) (h' : g'.KeepsFirst g'' kept' names) :
    g.KeepsFirst g'' (kept'.map (kept.getD · 0)) names := by
  intro name hname
  obtain ⟨place, index, hplace, hindex, hkept⟩ := h name hname
  obtain ⟨place', index', hplace', hindex', hkept'⟩ := h' name hname
  rw [hplace] at hindex'
  cases hindex'
  refine ⟨place', index, hplace', hindex, ?_⟩
  rw [List.getElem?_map, hkept', Option.map_some, List.getD_eq_getElem?_getD, hkept]
  rfl

/-- The first rule with a name stays the first one, if it is not removed. -/
theorem ruleIndex?_removeRules (h : g.ruleIndex? name = some index) (hr : g.rules[index]? = some r)
    (hkept : index ∉ indices) :
    ∃ place, (g.removeRules indices).ruleIndex? name = some place ∧
      (g.kept indices)[place]? = some index ∧ (g.removeRules indices).rules[place]? = some r := by
  have hmem : index ∈ g.kept indices :=
    mem_kept.mpr ⟨(List.getElem?_eq_some_iff.mp hr).1, hkept⟩
  obtain ⟨place, hname, hplace⟩ := (selects_removeRules g indices).ruleIndex?_eq h hmem
  refine ⟨place, hname, hplace, ?_⟩
  have hrule := congrArg (·[place]?) (rules_removeRules g indices)
  simp only [List.getElem?_map, hplace, Option.map_some, hr] at hrule
  exact Option.map_injective (Option.some_injective _) hrule

end Grammar

/-! ## Rules that are not used -/

namespace Facts

variable {f : Facts} {g : Grammar} {index : Nat}

theorem getD_callees (index : Nat) :
    ((List.range g.rules.length).map (f.callees g)).toArray.getD index [] =
      if index < g.rules.length then f.callees g index else [] := by
  rw [Array.getD_eq_getD_getElem?, List.getElem?_toArray, List.getElem?_map]
  split
  · next hlt => rw [List.getElem?_range hlt]; rfl
  · next hge => rw [List.getElem?_eq_none (by simpa using hge)]; rfl

/-- Only the first rule with a name can be reached. -/
theorem first_of_reachable (hf : f.Refers g) (h : Reach.Marked (f.reachable g) index) :
    ∃ name, g.ruleIndex? name = some index := by
  refine Reach.of_marked_closure (P := fun index => ∃ name, g.ruleIndex? name = some index) ?_ ?_ h
  · intro i hi
    obtain ⟨name, -, hname⟩ := List.mem_filterMap.mp hi
    exact ⟨name, hname⟩
  · intro i _ j hj
    rw [getD_callees] at hj
    split at hj
    · obtain ⟨id, -, hid⟩ := List.mem_filterMap.mp hj
      obtain ⟨name, -, hname⟩ := hf id j hid
      exact ⟨name, hname⟩
    · cases hj

/-- What a rule that can be reached refers to can be reached, too. -/
theorem reachable_of_target (h : Reach.Marked (f.reachable g) index) {id : NodeId} {target : Nat}
    (hid : id ∈ g.ruleNodes index) (htarget : f.target? id = some target)
    (hlt : target < g.rules.length) : Reach.Marked (f.reachable g) target := by
  refine Reach.closed_closure (f.starterIndices g) index target h ?_ hlt
  rw [getD_callees, if_pos (Reach.lt_of_marked_closure h)]
  exact List.mem_filterMap.mpr ⟨id, hid, htarget⟩

/-- The rules that a parse may start from can be reached. -/
theorem reachable_of_starter {name : String} (hname : name ∈ f.starters)
    (hindex : g.ruleIndex? name = some index) : Reach.Marked (f.reachable g) index :=
  Reach.marked_start (List.mem_filterMap.mpr ⟨name, hname, hindex⟩) (ruleIndex?_lt hindex)

end Facts

namespace Session

variable {s : Session}

theorem mem_unused {index : Nat} : index ∈ s.unused ↔
    index < s.grammar.rules.length ∧ ¬Reach.Marked (s.facts.reachable s.grammar) index := by
  have hlt : index < s.grammar.rules.length ↔ ∃ r, s.grammar.rules[index]? = some r := by
    simp [List.getElem?_eq_some_iff]
  rw [hlt]
  simp [unused, Reach.Marked, List.mem_zipIdx_iff_getElem?, and_comm]

/-- The grammar that is left when the rules that are not used are dropped. -/
theorem dropUnusedRules_grammar (s : Session) :
    s.dropUnusedRules.grammar = s.grammar.removeRules s.unused := by
  obtain ⟨t, hkeeps, ⟨hnone, hdropped⟩ | hdropped⟩ := dropUnusedRules_cases s
  · rw [hdropped, hkeeps.grammar, hnone, Grammar.removeRules_nil]
  · rw [hdropped, ← hkeeps.grammar]
    rfl

/-- Rules that are used have names of their own. -/
theorem uniqueNames_dropUnusedRules (hf : s.facts.Refers s.grammar) :
    s.dropUnusedRules.grammar.UniqueNames := by
  rw [dropUnusedRules_grammar]
  refine Grammar.uniqueNames_removeRules fun index r hr hkept => ?_
  have hlt := (List.getElem?_eq_some_iff.mp hr).1
  have hreached : Reach.Marked (s.facts.reachable s.grammar) index := by
    by_contra hnot
    exact hkept (mem_unused.mpr ⟨hlt, hnot⟩)
  obtain ⟨name, hname⟩ := Facts.first_of_reachable hf hreached
  obtain ⟨r', hr', rfl⟩ := Grammar.name_of_ruleIndex? hname
  rw [hr] at hr'
  cases hr'
  exact hname

end Session

end PegMachine
