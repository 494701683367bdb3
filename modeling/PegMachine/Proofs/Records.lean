import PegMachine.Proofs.Sweeps
import PegMachine.Proofs.Trees

/-!
# Records of nodes

After the sweeps every node of a rule has a record of what it consumes, and no other node has one.
-/

namespace PegMachine

namespace Grammar

variable {g : Grammar} {id : NodeId}

theorem HasTrees.mem_ruleNodes_iff (h : g.HasTrees) :
    id ∈ (List.range g.rules.length).flatMap g.ruleNodes ↔ g.Owned id := by
  rw [List.mem_flatMap]
  constructor
  · rintro ⟨index, hindex, hid⟩
    have hr := List.getElem?_eq_getElem (List.mem_range.mp hindex)
    have hmem := List.mem_of_getElem? hr
    exact ⟨_, hmem, (mem_ruleNodes hr (h _ hmem)).mp hid⟩
  · rintro ⟨r, hmem, hbelow⟩
    obtain ⟨index, hr⟩ := List.mem_iff_getElem?.mp hmem
    have hlt := (List.getElem?_eq_some_iff.mp hr).1
    exact ⟨index, List.mem_range.mpr hlt, (mem_ruleNodes hr (h _ hmem)).mpr hbelow⟩

end Grammar

namespace Consumption

/-- Filling a table at some places. -/
theorem getElem?_foldl_setIfInBounds {α : Type} (value : NodeId → α) (ids : List NodeId)
    (table : Array α) (id : NodeId) :
    (ids.foldl (fun table id => table.setIfInBounds id (value id)) table)[id]? =
      if id ∈ ids ∧ id < table.size then some (value id) else table[id]? := by
  induction ids generalizing table with
  | nil => simp
  | cons first ids ih =>
    rw [List.foldl_cons, ih, Array.size_setIfInBounds, Array.getElem?_setIfInBounds]
    by_cases hlt : id < table.size
    · by_cases hfirst : first = id
      · subst hfirst
        simp [hlt]
      · have hfirst' : ¬id = first := fun h => hfirst h.symm
        simp [hfirst, hfirst']
    · by_cases hfirst : first = id
      · subst hfirst
        simp [hlt]
      · simp [hfirst, hlt]

/-- The nodes of rules have records. -/
theorem getElem?_nodeTable {c : Context} (h : c.grammar.HasTrees) {id : NodeId}
    (hid : c.grammar.Owned id) :
    (nodeTable c)[id]? = some (some (ofNode c c.grammar.depthBound id)) := by
  rw [nodeTable, getElem?_foldl_setIfInBounds fun id => some (ofNode c c.grammar.depthBound id)]
  rw [if_pos ⟨h.mem_ruleNodes_iff.mpr hid, by simpa using (h.tree hid).lt_size⟩]

theorem getElem?_nodeTable_of_not {c : Context} (h : c.grammar.HasTrees) {id : NodeId}
    (hid : ¬c.grammar.Owned id) : (nodeTable c)[id]?.join = none := by
  rw [nodeTable, getElem?_foldl_setIfInBounds fun id => some (ofNode c c.grammar.depthBound id)]
  rw [if_neg fun hmem => hid (h.mem_ruleNodes_iff.mp hmem.1), Array.getElem?_replicate]
  split <;> rfl

end Consumption

namespace Facts

variable {f : Facts} {c : Consumption.Context} {id : NodeId}

/-- What is known of a node that belongs to a rule. -/
theorem consumptionOf_of_owned (hf : f.consumption = Consumption.nodeTable c)
    (h : c.grammar.HasTrees) (hid : c.grammar.Owned id) :
    f.consumptionOf id = Consumption.ofNode c c.grammar.depthBound id := by
  rw [consumptionOf, hf, Consumption.getElem?_nodeTable h hid]
  rfl

/-- Only nodes that belong to rules are known to consume anything. -/
theorem owned_of_consumptionOf (hf : f.consumption = Consumption.nodeTable c)
    (h : c.grammar.HasTrees) (hid : 0 < (f.consumptionOf id).min) : c.grammar.Owned id := by
  by_contra hnot
  rw [consumptionOf, hf, Consumption.getElem?_nodeTable_of_not h hnot] at hid
  exact absurd hid (Nat.lt_irrefl 0)

/-- The record of a rule, once there is one. -/
def record? (f : Facts) (index : Nat) : Option Consumption :=
  (f.rules[index]?).bind (·.consumption)

/-- Every rule has the record that the sweeps ended with. -/
theorem record?_analyze {g : Grammar} (hrules : f.rules.size = g.rules.length) {index : Nat}
    (hlt : index < g.rules.length) :
    (f.analyze g).record? index = some ((Consumption.solve g f).record index) := by
  have hsize : (Consumption.solve g f).records.size = g.rules.length :=
    (Consumption.rises_solve g f).size.trans Array.size_replicate
  have hrecords : index < (Consumption.solve g f).records.size := hsize ▸ hlt
  have hrule : index < f.rules.size := hrules ▸ hlt
  simp [record?, analyze, Consumption.Context.record, hrule, hrecords]

end Facts

end PegMachine
