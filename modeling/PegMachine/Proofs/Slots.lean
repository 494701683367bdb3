import PegMachine.Proofs.Structured
import PegMachine.Run.Routines

/-!
# Stacks in slots

A routine keeps the entry at height `n` of the stack in slot `n`. Slots above the top may hold
anything: what was popped stays there, and what was taken out of a slot leaves a failure. `Mirrors`
says that the slots below the top are those of the stack; it is kept by everything that moves
the stack.
-/

namespace PegMachine

variable {σ : Type}

namespace Routine

/-! ## Touched slots -/

/-- The slots that an expression reads or clears. -/
def Expr.indices : Expr → List Nat
  | .take i => [i]
  | .wrap first n => (List.range n).map (first + ·)
  | .text i => [i]
  | .call _ args => args
  | _ => []

/-- The slots that a condition reads. -/
def Cond.indices : Cond → List Nat
  | .truthy i => [i]
  | .isFailed i => [i]
  | .notFailed i => [i]
  | .arrayShorter i _ => [i]
  | .arrayAtLeast i _ => [i]
  | _ => []

mutual

/-- The slots that a statement reads or writes. -/
def Stmt.indices : Stmt → List Nat
  | .assign target value => target :: value.indices
  | .restorePos i => [i]
  | .loadSavedPos i => [i]
  | .append array item => [array, item]
  | .branch cond held otherwise => cond.indices ++ (indicesAll held ++ indicesAll otherwise)
  | .loop cond body => cond.indices ++ indicesAll body
  | _ => []

/-- The slots that statements read or write. -/
def Stmt.indicesAll : List Stmt → List Nat
  | [] => []
  | stmt :: rest => stmt.indices ++ indicesAll rest

end

theorem Stmt.indicesAll_append (a b : List Stmt) :
    indicesAll (a ++ b) = indicesAll a ++ indicesAll b := by
  induction a with
  | nil => rfl
  | cons stmt rest ih => simp [indicesAll, ih]

/-! ## Mirrored stacks -/

/-- The entries of the stack are in the slots of their heights. -/
def Mirrors (stack : List Slot) (slots : Array Slot) : Prop :=
  stack.length ≤ slots.size ∧
    ∀ offset < stack.length, slot slots (stack.length - 1 - offset) = stack.getD offset .failed

variable {stack : List Slot} {slots : Array Slot}

theorem slot_setIfInBounds_self {i : Nat} (h : i < slots.size) (v : Slot) :
    slot (slots.setIfInBounds i v) i = v := by
  simp [slot, Array.getD_eq_getD_getElem?, h]

theorem slot_setIfInBounds_ne {i j : Nat} (h : i ≠ j) (v : Slot) :
    slot (slots.setIfInBounds i v) j = slot slots j := by
  simp [slot, Array.getD_eq_getD_getElem?, Array.getElem?_setIfInBounds_ne h]

/-- An empty stack is mirrored by any slots. -/
theorem Mirrors.nil : Mirrors [] slots := ⟨Nat.zero_le _, fun _ h => absurd h (Nat.not_lt_zero _)⟩

/-- A pushed entry goes into the slot above the top. -/
theorem Mirrors.push (h : Mirrors stack slots) (hlt : stack.length < slots.size) (v : Slot) :
    Mirrors (v :: stack) (slots.setIfInBounds stack.length v) := by
  refine ⟨by simpa using Nat.succ_le_of_lt hlt, fun offset hoffset => ?_⟩
  cases offset with
  | zero => simpa using slot_setIfInBounds_self hlt v
  | succ offset =>
    simp only [List.length_cons] at hoffset ⊢
    rw [slot_setIfInBounds_ne (by omega), show stack.length + 1 - 1 - (offset + 1) =
      stack.length - 1 - offset by omega, h.2 offset (by omega)]
    rfl

/-- Slots above the top do not matter. -/
theorem Mirrors.set_above (h : Mirrors stack slots) {i : Nat} (hi : stack.length ≤ i) (v : Slot) :
    Mirrors stack (slots.setIfInBounds i v) := by
  refine ⟨by simpa using h.1, fun offset hoffset => ?_⟩
  rw [slot_setIfInBounds_ne (by omega), h.2 offset hoffset]

/-- Dropped entries stay in their slots. -/
theorem Mirrors.drop (h : Mirrors stack slots) (n : Nat) : Mirrors (stack.drop n) slots := by
  refine ⟨by simp only [List.length_drop]; exact Nat.le_trans (Nat.sub_le _ _) h.1,
    fun offset hoffset => ?_⟩
  rw [List.length_drop] at hoffset ⊢
  rw [show stack.length - n - 1 - offset = stack.length - 1 - (n + offset) by omega,
    h.2 (n + offset) (by omega)]
  simp [List.getD_eq_getElem?_getD]

/-- The slot of the top holds the top. -/
theorem Mirrors.top (h : Mirrors stack slots) (hpos : 0 < stack.length) :
    slot slots (stack.length - 1) = stack.headD .failed := by
  rw [show stack.length - 1 = stack.length - 1 - 0 by omega, h.2 0 hpos]
  cases stack <;> rfl

/-- The slots of the top entries, lowest first, hold these entries. -/
theorem Mirrors.topmost (h : Mirrors stack slots) {n : Nat} (hn : n ≤ stack.length) :
    ((List.range n).map fun i => slot slots (stack.length - n + i)) = (stack.take n).reverse := by
  apply List.ext_getElem
  · simp [hn]
  · intro i hi _
    have hi' : i < n := by simpa using hi
    simp only [List.getElem_map, List.getElem_range, List.getElem_reverse, List.length_take,
      Nat.min_eq_left hn, List.getElem_take]
    rw [show stack.length - n + i = stack.length - 1 - (n - 1 - i) by omega,
      h.2 _ (by omega), List.getD_eq_getElem?_getD, List.getElem?_eq_getElem (by omega)]
    rfl

theorem size_clear (slots : Array Slot) (first n : Nat) : (clear slots first n).size = slots.size := by
  induction n generalizing slots first with
  | zero => rfl
  | succ n ih => rw [clear, ih, Array.size_setIfInBounds]

/-- Clearing slots above the top does not matter. -/
theorem Mirrors.clear (h : Mirrors stack slots) {first : Nat} (hfirst : stack.length ≤ first)
    (n : Nat) : Mirrors stack (clear slots first n) := by
  induction n generalizing slots first with
  | zero => exact h
  | succ n ih => exact ih (h.set_above hfirst _) (by omega)

theorem dropped?_eq_some {height n rest : Nat} :
    dropped? height n = some rest ↔ n ≤ height ∧ rest = height - n := by
  rw [dropped?]
  split <;> simp_all [eq_comm]

theorem slotBelow?_eq_some {height offset i : Nat} :
    slotBelow? height offset = some i ↔ offset < height ∧ i = height - 1 - offset := by
  rw [slotBelow?]
  split <;> simp_all [eq_comm]

theorem lt_of_mem_slotsBelow {height : Nat} {offsets is : List Nat}
    (his : offsets.mapM (slotBelow? height) = some is) : ∀ i ∈ is, i < height := by
  induction offsets generalizing is with
  | nil => cases his; nofun
  | cons offset rest ih =>
    rw [List.mapM_cons] at his
    obtain ⟨i, hi, his⟩ := Option.bind_eq_some_iff.mp his
    obtain ⟨is', his', hpure⟩ := Option.bind_eq_some_iff.mp his
    cases hpure
    obtain ⟨hlt, rfl⟩ := slotBelow?_eq_some.mp hi
    exact List.forall_mem_cons.mpr ⟨by omega, ih his'⟩

/-- An entry below the top stands in the slot that unrolling finds for it. -/
theorem Mirrors.slotBelow (h : Mirrors stack slots) {offset i : Nat}
    (hi : slotBelow? stack.length offset = some i) : slot slots i = stack.getD offset .failed := by
  obtain ⟨hlt, rfl⟩ := slotBelow?_eq_some.mp hi
  exact h.2 offset hlt

/-- The entries below the top stand in the slots that unrolling finds for them. -/
theorem Mirrors.slotsBelow (h : Mirrors stack slots) {offsets is : List Nat}
    (his : offsets.mapM (slotBelow? stack.length) = some is) :
    is.map (slot slots) = offsets.map fun offset => stack.getD offset .failed := by
  induction offsets generalizing is with
  | nil => cases his; rfl
  | cons offset rest ih =>
    rw [List.mapM_cons] at his
    obtain ⟨i, hi, his⟩ := Option.bind_eq_some_iff.mp his
    obtain ⟨is', his', hpure⟩ := Option.bind_eq_some_iff.mp his
    cases hpure
    rw [List.map_cons, List.map_cons, h.slotBelow hi, ih his']

end Routine

end PegMachine
