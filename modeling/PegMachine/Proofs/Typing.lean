import PegMachine.Proofs.Generation
import PegMachine.Proofs.Placement

/-!
# Kinds of entries

Nothing in machine code tells a saved offset on the stack from a value or from the mark of a
failure. `Code.Typed` does: it assigns kinds to the entries in front of some code and behind it,
such that every instruction finds what it reads. Both blocks of a condition have to end with the
same kinds, but they begin with different ones, since the condition has looked at the top. Along
with the kinds go the number of open regions without reports, which no block may leave open, and
what the operands of instructions refer to.
-/

namespace PegMachine

/-! ## Kinds -/

/-- What is known of an entry. -/
inductive Kind where
  /-- It is a saved offset. -/
  | pos
  /-- It is a list. -/
  | array
  /-- It is a value. -/
  | value
  /-- It marks a failure. -/
  | failed
  /-- It is a value or marks a failure. -/
  | result
  deriving DecidableEq, Repr

/-- An entry is of a kind. -/
inductive Slot.Is : Slot → Kind → Prop
  /-- Offsets. -/
  | pos (p : Nat) : Slot.Is (.pos p) .pos
  /-- Lists. -/
  | array (items : List Value) : Slot.Is (.value (.array items)) .array
  /-- Values. -/
  | value (v : Value) : Slot.Is (.value v) .value
  /-- The mark of a failure. -/
  | failed : Slot.Is .failed .failed
  /-- A failure is a result. -/
  | failure : Slot.Is .failed .result
  /-- A value is a result. -/
  | success (v : Value) : Slot.Is (.value v) .result

/-- Every entry of one kind is of another kind. -/
def Kind.Le (k k' : Kind) : Prop := ∀ v : Slot, v.Is k → v.Is k'

namespace Kind

theorem Le.refl (k : Kind) : k.Le k := fun _ h => h

theorem array_le_value : Le .array .value := by
  rintro _ ⟨⟩
  exact .value _

theorem value_le_result : Le .value .result := by
  rintro _ ⟨⟩
  exact .success _

theorem array_le_result : Le .array .result := fun v h => value_le_result v (array_le_value v h)

theorem failed_le_result : Le .failed .result := by
  rintro _ ⟨⟩
  exact .failure

end Kind

/-- The kinds of the entries of a stack, the top first. -/
abbrev Kinds := List Kind

/-- The entries of a stack are of some kinds. -/
def Kinds.Hold (kinds : Kinds) (stack : List Slot) : Prop := List.Forall₂ Slot.Is stack kinds

/-- What is of some kinds is of other kinds. -/
def Kinds.Le (kinds kinds' : Kinds) : Prop := List.Forall₂ Kind.Le kinds kinds'

namespace Kinds

variable {kinds kinds' : Kinds} {stack : List Slot}

theorem Le.refl (kinds : Kinds) : kinds.Le kinds :=
  List.forall₂_same.mpr fun k _ => Kind.Le.refl k

/-- Only the top entry counts. -/
theorem Le.top {k k' : Kind} (h : k.Le k') (kinds : Kinds) : Kinds.Le (k :: kinds) (k' :: kinds) :=
  .cons h (Le.refl kinds)

theorem Le.length_eq (h : kinds.Le kinds') : kinds.length = kinds'.length := List.Forall₂.length_eq h

theorem Hold.le (h : kinds.Hold stack) (hle : kinds.Le kinds') : kinds'.Hold stack := by
  induction h generalizing kinds' with
  | nil => cases hle; exact .nil
  | cons hv _ ih =>
    cases hle with
    | cons hk hle => exact .cons (hk _ hv) (ih hle)

theorem Hold.length_eq (h : kinds.Hold stack) : stack.length = kinds.length :=
  List.Forall₂.length_eq h

theorem Hold.drop (h : kinds.Hold stack) (n : Nat) : Hold (kinds.drop n) (stack.drop n) :=
  List.forall₂_drop n h

/-- An entry of a known kind is there. -/
theorem Hold.getElem? (h : kinds.Hold stack) {i : Nat} {k : Kind} (hk : kinds[i]? = some k) :
    ∃ v, stack[i]? = some v ∧ v.Is k := by
  have hlt : i < kinds.length := (List.getElem?_eq_some_iff.mp hk).choose
  have hlt' : i < stack.length := h.length_eq ▸ hlt
  refine ⟨stack[i], List.getElem?_eq_getElem hlt', ?_⟩
  rw [List.getElem?_eq_getElem hlt, Option.some.injEq] at hk
  rw [← hk]
  exact List.Forall₂.get h hlt' hlt

end Kinds

/-! ## Instructions -/

/-- The operands of an instruction refer to what it needs: a text, a pattern, an expectation, a
rule, or an action with as many parameters as there are arguments. -/
def Program.Refers (P : Program) (arg : Nat → Nat) : Opcode → Prop
  | .push | .matchString | .matchStringIc | .acceptString =>
    ∃ value, P.constants[arg 1]? = some (.string value)
  | .matchRegexp | .acceptRegexp =>
    ∃ source ignoreCase multiLine, P.constants[arg 1]? = some (.pattern source ignoreCase multiLine)
  | .fail => ∃ e, P.constants[arg 1]? = some (.expected e)
  | .rule => arg 1 < P.rules.size
  | .call => ∃ action, P.actions[arg 1]? = some action ∧ action.params.length = arg 3
  | _ => True

namespace Opcode

/-- An instruction without blocks takes a stack with entries of some kinds to one with entries of
other kinds. -/
inductive Takes (arg : Nat → Nat) : Opcode → Kinds → Kinds → Prop
  | push {kinds : Kinds} : Takes arg .push kinds (.value :: kinds)
  | pushCurrPos {kinds : Kinds} : Takes arg .pushCurrPos kinds (.pos :: kinds)
  | pushUndefined {kinds : Kinds} : Takes arg .pushUndefined kinds (.value :: kinds)
  | pushNull {kinds : Kinds} : Takes arg .pushNull kinds (.value :: kinds)
  | pushFailed {kinds : Kinds} : Takes arg .pushFailed kinds (.failed :: kinds)
  | pushEmptyArray {kinds : Kinds} : Takes arg .pushEmptyArray kinds (.array :: kinds)
  | acceptN {kinds : Kinds} : Takes arg .acceptN kinds (.value :: kinds)
  | acceptString {kinds : Kinds} : Takes arg .acceptString kinds (.value :: kinds)
  | acceptRegexp {kinds : Kinds} : Takes arg .acceptRegexp kinds (.value :: kinds)
  | fail {kinds : Kinds} : Takes arg .fail kinds (.failed :: kinds)
  | rule {kinds : Kinds} : Takes arg .rule kinds (.result :: kinds)
  | pop {k : Kind} {kinds : Kinds} : Takes arg .pop (k :: kinds) kinds
  | popN {kinds : Kinds} (enough : arg 1 ≤ kinds.length) : Takes arg .popN kinds (kinds.drop (arg 1))
  | popCurrPos {kinds : Kinds} : Takes arg .popCurrPos (.pos :: kinds) kinds
  | nip {k k' : Kind} {kinds : Kinds} : Takes arg .nip (k :: k' :: kinds) (k :: kinds)
  | append {kinds : Kinds} : Takes arg .append (.value :: .array :: kinds) (.array :: kinds)
  | wrap {kinds : Kinds} (enough : arg 1 ≤ kinds.length)
      (values : ∀ k ∈ kinds.take (arg 1), k = .value) :
      Takes arg .wrap kinds (.value :: kinds.drop (arg 1))
  | text {kinds : Kinds} : Takes arg .text (.pos :: kinds) (.value :: kinds)
  | loadSavedPos {kinds : Kinds} (saved : kinds[arg 1]? = some .pos) :
      Takes arg .loadSavedPos kinds kinds
  | updateSavedPos {kinds : Kinds} : Takes arg .updateSavedPos kinds kinds
  | call {kinds : Kinds} (enough : arg 2 ≤ kinds.length)
      (values : ∀ i < arg 3, kinds[arg (4 + i)]? = some .value) :
      Takes arg .call kinds (.result :: kinds.drop (arg 2))
  | silentFailsOn {kinds : Kinds} : Takes arg .silentFailsOn kinds kinds
  | silentFailsOff {kinds : Kinds} : Takes arg .silentFailsOff kinds kinds

/-- The kinds with which the blocks of a condition begin: that for which the condition holds, and
the other one. -/
inductive Splits : Opcode → Kinds → Kinds → Kinds → Prop
  | ifTruthy {k : Kind} {kinds : Kinds} :
      Splits .ifTruthy (k :: kinds) (k :: kinds) (k :: kinds)
  | ifError {kinds : Kinds} : Splits .ifError (.result :: kinds) (.failed :: kinds) (.value :: kinds)
  | ifNotError {kinds : Kinds} :
      Splits .ifNotError (.result :: kinds) (.value :: kinds) (.failed :: kinds)
  | ifArrlenMin {kinds : Kinds} :
      Splits .ifArrlenMin (.array :: kinds) (.array :: kinds) (.array :: kinds)
  | ifArrlenMax {kinds : Kinds} :
      Splits .ifArrlenMax (.array :: kinds) (.array :: kinds) (.array :: kinds)
  | matchAny {kinds : Kinds} : Splits .matchAny kinds kinds kinds
  | matchString {kinds : Kinds} : Splits .matchString kinds kinds kinds
  | matchStringIc {kinds : Kinds} : Splits .matchStringIc kinds kinds kinds
  | matchRegexp {kinds : Kinds} : Splits .matchRegexp kinds kinds kinds

theorem Takes.plain {arg : Nat → Nat} {opcode : Opcode} {kinds kinds' : Kinds}
    (h : opcode.Takes arg kinds kinds') : opcode.isCondition = false ∧ opcode.isLoop = false := by
  cases h <;> exact ⟨rfl, rfl⟩

theorem Splits.isCondition {opcode : Opcode} {kinds kinds_held kinds_otherwise : Kinds}
    (h : opcode.Splits kinds kinds_held kinds_otherwise) : opcode.isCondition = true := by
  cases h <;> rfl

/-- The number of open regions without reports after an instruction, given the number before; an
instruction that closes a region needs one. -/
def regions? : Opcode → Nat → Option Nat
  | .silentFailsOn, open_ => some (open_ + 1)
  | .silentFailsOff, 0 => none
  | .silentFailsOff, open_ + 1 => some open_
  | .silentFailsReset, _ => none
  | _, open_ => some open_

end Opcode

/-! ## Code -/

/-- Code takes a stack with entries of some kinds, and a number of open regions without reports, to
such a stack and such a number. -/
inductive Code.Typed (P : Program) : Code → Nat → Kinds → Nat → Kinds → Prop
  /-- There is nothing to do. -/
  | nil {n : Nat} {kinds : Kinds} : Typed P [] n kinds n kinds
  /-- Less is known of the entries than could be. -/
  | forget {c : Code} {n n' : Nat} {kinds kinds₁ kinds' : Kinds} (le : kinds.Le kinds₁)
      (typed : Typed P c n kinds₁ n' kinds') : Typed P c n kinds n' kinds'
  /-- An instruction without blocks. -/
  | plain {opcode : Opcode} {operands : List UInt32} {rest : Code} {n n₁ n' : Nat}
      {kinds kinds₁ kinds' : Kinds} (fits : Instr.Fits opcode operands)
      (takes : opcode.Takes (Instr.arg operands) kinds kinds₁)
      (refers : P.Refers (Instr.arg operands) opcode) (regions : opcode.regions? n = some n₁)
      (next : Typed P rest n₁ kinds₁ n' kinds') :
      Typed P (.plain opcode operands :: rest) n kinds n' kinds'
  /-- A condition, whose blocks leave no region open. -/
  | branch {opcode : Opcode} {operands : List UInt32} {held otherwise rest : Code} {n n' : Nat}
      {kinds kinds_held kinds_otherwise kinds₁ kinds' : Kinds}
      (splits : opcode.Splits kinds kinds_held kinds_otherwise)
      (width : opcode.operands = operands.length + 2)
      (refers : P.Refers (Instr.arg operands) opcode)
      (typed_held : Typed P held 0 kinds_held 0 kinds₁)
      (typed_otherwise : Typed P otherwise 0 kinds_otherwise 0 kinds₁)
      (next : Typed P rest n kinds₁ n' kinds') :
      Typed P (.branch opcode operands held otherwise :: rest) n kinds n' kinds'
  /-- A loop, whose body leaves no region open and another result in place of the value that it
  found. -/
  | loop {body rest : Code} {n n' : Nat} {kinds kinds' : Kinds}
      (typed_body : Typed P body 0 (.value :: kinds) 0 (.result :: kinds))
      (next : Typed P rest n (.failed :: kinds) n' kinds') :
      Typed P (.loop body :: rest) n (.result :: kinds) n' kinds'

namespace Code.Typed

variable {P : Program} {a b c : Code} {n n' n'' : Nat} {kinds kinds' kinds'' : Kinds} {k : Kind}

/-- Nothing is done, but less is known afterwards. -/
theorem forgotten (h : kinds.Le kinds') : Typed P [] n kinds n kinds' := .forget h .nil

theorem append (ha : Typed P a n kinds n' kinds') (hb : Typed P b n' kinds' n'' kinds'') :
    Typed P (a ++ b) n kinds n'' kinds'' := by
  induction ha with
  | nil => exact hb
  | forget hle _ ih => exact .forget hle (ih hb)
  | plain hfits htakes hrefers hregions _ ih => exact .plain hfits htakes hrefers hregions (ih hb)
  | branch hsplits hwidth hrefers hheld hotherwise _ _ _ ih =>
    exact .branch hsplits hwidth hrefers hheld hotherwise (ih hb)
  | loop hbody _ _ ih => exact .loop hbody (ih hb)

/-- Code may run in an open region. -/
theorem inside (h : Typed P c n kinds n' kinds') :
    Typed P c (n + 1) kinds (n' + 1) kinds' := by
  induction h with
  | nil => exact .nil
  | forget hle _ ih => exact .forget hle ih
  | @plain opcode _ _ n n₁ _ _ _ _ hfits htakes hrefers hregions _ ih =>
    have hregions' : opcode.regions? (n + 1) = some (n₁ + 1) := by
      cases opcode <;> cases n <;> simp_all [Opcode.regions?]
    exact .plain hfits htakes hrefers hregions' ih
  | branch hsplits hwidth hrefers hheld hotherwise _ _ _ ih =>
    exact .branch hsplits hwidth hrefers hheld hotherwise ih
  | loop hbody _ _ ih => exact .loop hbody ih

/-! ### Single instructions -/

theorem push {w : UInt32} (hw : ∃ value, P.constants[w.toNat]? = some (.string value))
    (h : Typed P c n (.value :: kinds) n' kinds') :
    Typed P (op1 .push w :: c) n kinds n' kinds' := .plain (by simp) .push hw rfl h

theorem pushCurrPos (h : Typed P c n (.pos :: kinds) n' kinds') :
    Typed P (op .pushCurrPos :: c) n kinds n' kinds' := .plain (by simp) .pushCurrPos trivial rfl h

theorem pushUndefined (h : Typed P c n (.value :: kinds) n' kinds') :
    Typed P (op .pushUndefined :: c) n kinds n' kinds' :=
  .plain (by simp) .pushUndefined trivial rfl h

theorem pushNull (h : Typed P c n (.value :: kinds) n' kinds') :
    Typed P (op .pushNull :: c) n kinds n' kinds' := .plain (by simp) .pushNull trivial rfl h

theorem pushFailed (h : Typed P c n (.failed :: kinds) n' kinds') :
    Typed P (op .pushFailed :: c) n kinds n' kinds' := .plain (by simp) .pushFailed trivial rfl h

theorem pushEmptyArray (h : Typed P c n (.array :: kinds) n' kinds') :
    Typed P (op .pushEmptyArray :: c) n kinds n' kinds' :=
  .plain (by simp) .pushEmptyArray trivial rfl h

theorem fail {w : UInt32} (hw : ∃ e, P.constants[w.toNat]? = some (.expected e))
    (h : Typed P c n (.failed :: kinds) n' kinds') :
    Typed P (op1 .fail w :: c) n kinds n' kinds' := .plain (by simp) .fail hw rfl h

theorem rule {w : UInt32} (hw : w.toNat < P.rules.size)
    (h : Typed P c n (.result :: kinds) n' kinds') :
    Typed P (op1 .rule w :: c) n kinds n' kinds' := .plain (by simp) .rule hw rfl h

theorem pop (h : Typed P c n kinds n' kinds') : Typed P (op .pop :: c) n (k :: kinds) n' kinds' :=
  .plain (by simp) .pop trivial rfl h

theorem popN {w : UInt32} {m : Nat} (hw : w.toNat = m) (hm : m ≤ kinds.length)
    (h : Typed P c n (kinds.drop m) n' kinds') : Typed P (op1 .popN w :: c) n kinds n' kinds' := by
  subst hw
  exact .plain (by simp) (.popN hm) trivial rfl h

theorem wrap {w : UInt32} {m : Nat} (hw : w.toNat = m) (hm : m ≤ kinds.length)
    (hvalues : ∀ k ∈ kinds.take m, k = .value)
    (h : Typed P c n (.value :: kinds.drop m) n' kinds') :
    Typed P (op1 .wrap w :: c) n kinds n' kinds' := by
  subst hw
  exact .plain (by simp) (.wrap hm hvalues) trivial rfl h

theorem popCurrPos (h : Typed P c n kinds n' kinds') :
    Typed P (op .popCurrPos :: c) n (.pos :: kinds) n' kinds' :=
  .plain (by simp) .popCurrPos trivial rfl h

theorem nip {k' : Kind} (h : Typed P c n (k :: kinds) n' kinds') :
    Typed P (op .nip :: c) n (k :: k' :: kinds) n' kinds' := .plain (by simp) .nip trivial rfl h

theorem appended (h : Typed P c n (.array :: kinds) n' kinds') :
    Typed P (op .append :: c) n (.value :: .array :: kinds) n' kinds' :=
  .plain (by simp) .append trivial rfl h

theorem text (h : Typed P c n (.value :: kinds) n' kinds') :
    Typed P (op .text :: c) n (.pos :: kinds) n' kinds' := .plain (by simp) .text trivial rfl h

theorem updateSavedPos (h : Typed P c n kinds n' kinds') :
    Typed P (op .updateSavedPos :: c) n kinds n' kinds' :=
  .plain (by simp) .updateSavedPos trivial rfl h

theorem loadSavedPos {w : UInt32} (hw : kinds[w.toNat]? = some .pos)
    (h : Typed P c n kinds n' kinds') : Typed P (op1 .loadSavedPos w :: c) n kinds n' kinds' :=
  .plain (by simp) (.loadSavedPos hw) trivial rfl h

theorem silentFailsOn (h : Typed P c (n + 1) kinds n' kinds') :
    Typed P (op .silentFailsOn :: c) n kinds n' kinds' :=
  .plain (by simp) .silentFailsOn trivial rfl h

theorem silentFailsOff (h : Typed P c n kinds n' kinds') :
    Typed P (op .silentFailsOff :: c) (n + 1) kinds n' kinds' :=
  .plain (by simp) .silentFailsOff trivial rfl h

/-- Some code recovers from a failure, and nothing is done about a value. -/
theorem afterFailure {recovery : Code}
    (hrecovery : Typed P recovery 0 (.failed :: kinds) 0 (.result :: kinds))
    (h : Typed P c n (.result :: kinds) n' kinds') :
    Typed P (.branch .ifError [] recovery [] :: c) n (.result :: kinds) n' kinds' :=
  .branch .ifError rfl trivial hrecovery (forgotten (.top Kind.value_le_result _)) h

/-- A loop appends values to a list for as long as there are any. -/
theorem appendLoop {e : Code} (he : Typed P e 0 (.array :: kinds) 0 (.result :: .array :: kinds))
    (h : Typed P c n (.failed :: .array :: kinds) n' kinds') :
    Typed P (.loop (op .append :: e) :: c) n (.result :: .array :: kinds) n' kinds' :=
  .loop (appended he) h

end Code.Typed

end PegMachine
