import PegMachine.Proofs.Executors
import PegMachine.Proofs.InsideFrames
import PegMachine.Proofs.Stepping

/-!
# Offsets in slots

A routine keeps in its slots what the machine code keeps on the stack, and in the slots above what
was there before. Wherever a routine is, there is structured code in front of it, typed and
prepared, and a stack that its slots mirror, such that the moment is steady. Every statement keeps
that, and offsets in slots above the stack once were current ones.
-/

namespace PegMachine

variable {σ : Type} {E : Setting σ}

/-! ## Structured code -/

/-- Words stand for one structured code only. -/
theorem Placed.unique {code : Array UInt32} {c c' : Code} {ip stop : Nat}
    (h : Placed code c ip stop) (h' : Placed code c' ip stop) : c = c' := by
  have hoperands {ip : Nat} {a b : List UInt32} (hlength : a.length = b.length)
      (ha : Spells code ip a) (hb : Spells code ip b) : a = b := by
    refine List.ext_getElem hlength fun i hi hi' => ?_
    have hword := (ha i hi).trans (hb i hi').symm
    simpa [Instr.arg, List.getD_eq_getElem?_getD, hi, hi', UInt32.toNat_inj] using hword
  induction h generalizing c' with
  | nil le =>
    cases h' with
    | nil => rfl
    | _ => omega
  | plain lt word not_condition not_loop width spells next ih =>
    cases h' with
    | nil le => omega
    | plain _ word' _ _ width' spells' next' =>
      obtain rfl := Option.some.inj (word.symm.trans word')
      obtain rfl := hoperands (width.symm.trans width') spells spells'
      rw [ih next']
    | branch _ word' condition' =>
      obtain rfl := Option.some.inj (word.symm.trans word')
      exact absurd condition' (Bool.eq_false_iff.mp not_condition)
    | loop _ word' =>
      obtain rfl := Option.some.inj (word.symm.trans word')
      cases not_loop
  | branch lt word condition width spells t_eq f_eq placed_held placed_otherwise next ih_held
      ih_otherwise ih =>
    cases h' with
    | nil le => omega
    | plain _ word' not_condition' =>
      obtain rfl := Option.some.inj (word.symm.trans word')
      exact absurd condition (Bool.eq_false_iff.mp not_condition')
    | branch _ word' _ width' spells' t_eq' f_eq' placed_held' placed_otherwise' next' =>
      obtain rfl := Option.some.inj (word.symm.trans word')
      obtain rfl := hoperands (by omega) spells spells'
      subst t_eq f_eq t_eq' f_eq'
      rw [ih_held placed_held', ih_otherwise placed_otherwise', ih next']
    | loop _ word' =>
      obtain rfl := Option.some.inj (word.symm.trans word')
      cases condition
  | loop lt word b_eq placed_body next ih_body ih =>
    cases h' with
    | nil le => omega
    | plain _ word' _ not_loop' =>
      obtain rfl := Option.some.inj (word.symm.trans word')
      cases not_loop'
    | branch _ word' condition' =>
      obtain rfl := Option.some.inj (word.symm.trans word')
      cases condition'
    | loop _ word' b_eq' placed_body' next' =>
      subst b_eq b_eq'
      rw [ih_body placed_body', ih next']

/-- Code may run in open regions. -/
theorem Code.Typed.within {P : Program} {c : Code} {n n' : Nat} {kinds kinds' : Kinds}
    (h : c.Typed P n kinds n' kinds') (m : Nat) : c.Typed P (n + m) kinds (n' + m) kinds' := by
  induction m with
  | zero => exact h
  | succ m ih => exact ih.inside

namespace Routine

theorem Unrolls.append {limit height middle last : Nat} {a b : Code} {body body' : List Stmt}
    (ha : Unrolls limit a height body middle) (hb : Unrolls limit b middle body' last) :
    Unrolls limit (a ++ b) height (body ++ body') last := by
  induction ha with
  | nil => exact hb
  | plain stmts_eq le _ ih =>
    rw [List.append_assoc]
    exact .plain stmts_eq le (ih hb)
  | branch condition cond_eq unrolls_held unrolls_otherwise _ _ _ ih =>
    exact .branch condition cond_eq unrolls_held unrolls_otherwise (ih hb)
  | loop top_eq unrolls_block _ _ ih => exact .loop top_eq unrolls_block (ih hb)

/-! ## Slots -/

/-- Every offset in a slot is a place of the input. -/
def SlotsInside (input : Input) (slots : Array Slot) : Prop :=
  ∀ i a, slot slots i = .pos a → input.Inside a

namespace SlotsInside

variable {input : Input} {slots : Array Slot}

theorem set (h : SlotsInside input slots) {v : Slot} (hv : ∀ a, v = .pos a → input.Inside a)
    (i : Nat) : SlotsInside input (slots.setIfInBounds i v) := by
  intro j a hj
  by_cases hij : i = j
  · subst hij
    by_cases hi : i < slots.size
    · rw [slot_setIfInBounds_self hi] at hj
      exact hv a hj
    · rw [slot, Array.getD_eq_getD_getElem?, Array.getElem?_eq_none (by simpa using hi)] at hj
      cases hj
  · rw [slot_setIfInBounds_ne hij] at hj
    exact h j a hj

theorem set_result (h : SlotsInside input slots) {v : Slot} (hv : v.Is .result) (i : Nat) :
    SlotsInside input (slots.setIfInBounds i v) :=
  h.set (fun a ha => by subst ha; cases hv) i

theorem clear (h : SlotsInside input slots) (first n : Nat) :
    SlotsInside input (Routine.clear slots first n) := by
  induction n generalizing slots first with
  | zero => exact h
  | succ n ih => exact ih (h.set_result .failure first) (first + 1)

theorem replicate (input : Input) (n : Nat) :
    SlotsInside input (Array.replicate n .failed) := by
  intro i a hi
  rw [slot, Array.getD_eq_getD_getElem?, Array.getElem?_replicate] at hi
  split at hi <;> cases hi

/-- The value of an expression is no offset, or one that was in a slot or is the current one. -/
theorem simple (h : SlotsInside input slots) {s : State σ} (hpos : input.Inside s.pos)
    (value : Expr) :
    (∀ a, (value.simple E slots s).1 = .pos a → input.Inside a) ∧
      SlotsInside input (value.simple E slots s).2.1 := by
  cases value with
  | currPos => exact ⟨fun a ha => by cases ha; exact hpos, h⟩
  | take i => exact ⟨h i, h.set_result .failure i⟩
  | wrap first n => exact ⟨fun a ha => (by cases ha), h.clear first n⟩
  | fail c =>
    refine ⟨fun a ha => ?_, h⟩
    rw [Expr.simple, State.fst_fail] at ha
    cases ha
  | _ => exact ⟨fun a ha => (by cases ha), h⟩

/-- A plain statement puts nothing else into slots. -/
theorem exec (h : SlotsInside input slots) {s t : State σ} (hpos : input.Inside s.pos)
    {stmt : Stmt} (hplain : stmt.IsPlain) {invoke : Nat → Run (State σ) Slot} {rounds : Nat}
    {slots' : Array Slot} (hrun : exec E invoke rounds stmt slots s = some (.ok slots', t)) :
    SlotsInside input slots' := by
  cases stmt with
  | branch | loop => cases hplain
  | assign target value =>
    by_cases hcall : ∃ action args, value = .call action args
    · obtain ⟨action, args, rfl⟩ := hcall
      rw [Routine.exec] at hrun
      dsimp only at hrun
      generalize hout : s.call E action (args.map fun i => (slot slots i).toValue) = out at hrun
      obtain ⟨e | v, u⟩ := out
      · cases hrun
      · cases hrun
        exact h.set_result (State.is_result_of_call (by rw [hout])) target
    · have hrule : ∀ index, value ≠ .rule index := by
        rintro index rfl
        exact hplain
      rw [exec_assign (fun action args heq => hcall ⟨action, args, heq⟩) hrule] at hrun
      cases hrun
      obtain ⟨hvalue, hslots⟩ := h.simple (E := E) hpos value
      exact hslots.set hvalue target
  | append array item =>
    cases hrun
    have hleft := h.set_result .failure item
    refine hleft.set (fun a ha => hleft array a ?_) array
    generalize slot (slots.setIfInBounds item .failed) array = v at ha ⊢
    cases v with
    | pos b => exact ha
    | failed => cases ha
    | value v => cases v <;> cases ha
  | _ =>
    cases hrun
    exact h

end SlotsInside

/-! ## Moments -/

/-- In front of a routine that began at an offset is structured code, typed and prepared, and a
stack that its slots mirror, in a steady moment. -/
structure Steady (E : Setting σ) (base : Nat) (stmts : List Stmt) (slots : Array Slot)
    (s : State σ) : Prop where
  front : ∃ c k stack n kinds n' kinds' limit last, Code.Typed E.program c n kinds n' kinds' ∧
    c.Prepared k ∧ Unrolls limit c stack.length stmts last ∧ limit ≤ slots.size ∧
    Mirrors stack slots ∧ kinds.Hold stack ∧ PegMachine.Steady E base k stack s
  slots : SlotsInside E.input slots
  keeps : s.KeepsResults

/-- What a step leads to is steady, also after an invocation that gives a result further on. -/
def Step.Steady (E : Setting σ) (base : Nat) : Step σ → Prop
  | .next stmts slots s => Routine.Steady E base stmts slots s
  | .invoke _ target rest slots s => s.Inside E.input ∧ s.KeepsResults ∧
      ∀ (v : Slot) t, v.Is .result → t.Inside E.input → t.KeepsResults → s.pos ≤ t.pos →
        Routine.Steady E base rest (slots.setIfInBounds target v) t
  | .abort _ s => s.Inside E.input
  | .done _ s => s.Inside E.input ∧ base ≤ s.pos

/-- What a statement is about to do with the text of the input. -/
def Stmt.deed? (slots : Array Slot) : Stmt → Option Deed
  | .assign _ (.call _ _) => some .call
  | .assign _ (.text i) => some (.text (slot slots i))
  | .assign _ (.acceptN n) => some (.acceptN n)
  | .assign _ (.acceptString c) => some (.acceptString c)
  | .assign _ (.acceptRegexp c) => some (.acceptRegexp c)
  | _ => none

section

variable {opcode : Opcode} {arg : Nat → Nat} {stack : List Slot} {slots : Array Slot}
  {stmts : List Stmt} {after : Nat}

/-- An instruction that only drops entries becomes no statement, any other one becomes one. -/
theorem plain?_shape (h : plain? opcode arg stack.length = some (stmts, after)) :
    (stmts = [] ∧ opcode ≠ .rule) ∨
      ∃ stmt, stmts = [stmt] ∧ (opcode ≠ .rule → stmt.IsPlain) := by
  cases opcode with
  | rule =>
    cases h
    exact .inr ⟨_, rfl, fun hne => absurd rfl hne⟩
  | push | pushCurrPos | pushUndefined | pushNull | pushFailed | pushEmptyArray | acceptN
  | acceptString | acceptRegexp | fail | updateSavedPos | silentFailsOn | silentFailsOff
  | silentFailsReset =>
    cases h
    exact .inr ⟨_, rfl, fun _ => trivial⟩
  | pop | popN =>
    obtain ⟨rest, -, hpair⟩ := Option.map_eq_some_iff.mp h
    cases hpair
    exact .inl ⟨rfl, nofun⟩
  | popCurrPos | nip | append | text | loadSavedPos | wrap =>
    obtain ⟨slot, -, hpair⟩ := Option.map_eq_some_iff.mp h
    cases hpair
    exact .inr ⟨_, rfl, fun _ => trivial⟩
  | call =>
    obtain ⟨is, -, hrest⟩ := Option.bind_eq_some_iff.mp h
    obtain ⟨rest, -, hpair⟩ := Option.bind_eq_some_iff.mp hrest
    cases hpair
    exact .inr ⟨_, rfl, fun _ => trivial⟩
  | _ => cases h

/-- A statement does with the text what its instruction does. -/
theorem Mirrors.deed?_eq (h : Mirrors stack slots) {stmt : Stmt}
    (hplain : plain? opcode arg stack.length = some ([stmt], after)) :
    stmt.deed? slots = opcode.deed? arg stack := by
  cases opcode with
  | push | pushCurrPos | pushUndefined | pushNull | pushFailed | pushEmptyArray | acceptN
  | acceptString | acceptRegexp | fail | rule | updateSavedPos | silentFailsOn | silentFailsOff
  | silentFailsReset =>
    cases hplain
    rfl
  | pop | popN =>
    obtain ⟨rest, -, hpair⟩ := Option.map_eq_some_iff.mp hplain
    cases hpair
  | popCurrPos | nip | append | loadSavedPos | wrap =>
    obtain ⟨slot, -, hpair⟩ := Option.map_eq_some_iff.mp hplain
    cases hpair
    rfl
  | text =>
    obtain ⟨i, hi, hpair⟩ := Option.map_eq_some_iff.mp hplain
    cases hpair
    rw [Stmt.deed?, h.slotBelow hi, Opcode.deed?]
    cases stack <;> rfl
  | call =>
    obtain ⟨is, -, hrest⟩ := Option.bind_eq_some_iff.mp hplain
    obtain ⟨rest, -, hpair⟩ := Option.bind_eq_some_iff.mp hrest
    cases hpair
    rfl
  | _ => cases hplain

end

/-- A step of a routine with typed and prepared code in front of it, in a steady moment, leads to
such, and what it does with the text is safe. -/
theorem step_steady {c : Code} {k : Known} {n n' base limit last : Nat} {kinds kinds' : Kinds}
    {stack : List Slot} {stmts : List Stmt} {slots : Array Slot} {s : State σ}
    (h : c.Typed E.program n kinds n' kinds') (hprepared : c.Prepared k)
    (hunrolls : Unrolls limit c stack.length stmts last) (hlimit : limit ≤ slots.size)
    (hmirrors : Mirrors stack slots) (hstack : kinds.Hold stack)
    (hsteady : PegMachine.Steady E base k stack s) (hslots : SlotsInside E.input slots)
    (hkeeps : s.KeepsResults) :
    (step E stmts slots s).Steady E base ∧
      ∀ d, stmts.head?.bind (·.deed? slots) = some d → d.Safe E s := by
  induction h generalizing k stack stmts with
  | nil =>
    cases hunrolls
    exact ⟨⟨hsteady.inside, hsteady.base_le⟩, nofun⟩
  | forget hle _ ih => exact ih hprepared hunrolls hmirrors (hstack.le hle) hsteady
  | @plain opcode operands rest n n₁ n' kinds kinds₁ kinds' _ htakes _ _ hrest ih =>
    obtain ⟨hasks, hprepared⟩ := hprepared
    cases hunrolls with
    | @plain _ _ _ stmts body _ after _ stmts_eq le next =>
      have hfinds := htakes.finds hstack
      by_cases hrule : opcode = .rule
      · subst hrule
        cases stmts_eq
        cases htakes with
        | rule =>
          refine ⟨⟨hsteady.inside, hkeeps, fun v t hv ht hkept hpos => ?_⟩, nofun⟩
          exact ⟨⟨rest, .nothing, v :: stack, _, _, _, _, _, _, hrest, hprepared, next,
            by simpa using hlimit, hmirrors.push (by omega) v, .cons hv hstack,
            hsteady.result hv ht hpos⟩, hslots.set_result hv _, hkept⟩
      · have hagrees : Agrees after slots.size
            (some (Interpreter.plain E opcode (Instr.arg operands) stack s))
            (execAll E (fun _ => .forever) 0 stmts slots s) :=
          hmirrors.agrees_plain hrule stmts_eq (le.trans hlimit)
        have hplain := fun o t => hsteady.plain hasks hfinds (o := o) (t := t)
        have hholds : ∀ stack', (Interpreter.plain E opcode (Instr.arg operands) stack s).1 =
            .ok stack' → kinds₁.Hold stack' :=
          fun _ => Interpreter.holds_of_plain htakes hrule hstack
        have hmemo : (Interpreter.plain E opcode (Instr.arg operands) stack s).2.memo = s.memo :=
          Interpreter.memo_plain
        generalize Interpreter.plain E opcode (Instr.arg operands) stack s = out
          at hagrees hplain hholds hmemo
        rcases plain?_shape stmts_eq with ⟨rfl, -⟩ | ⟨stmt, rfl, hkind⟩
        · -- Nothing is done, the next statement is that of a later instruction.
          rw [execAll, Run.pure_apply] at hagrees
          cases hagrees with
          | @ok stack' _ _ hlength _ hmirrors =>
            exact ih hprepared (hlength ▸ next) hmirrors (hholds _ rfl) ((hplain _ _ rfl).2 _ rfl)
        · refine ⟨?_, fun d hd => hsteady.safe hasks hfinds ?_⟩
          · rw [execAll_singleton] at hagrees
            rw [List.singleton_append, step_plain (hkind hrule) (fun _ => .forever) 0]
            generalize hexec : exec E (fun _ => .forever) 0 stmt slots s = x at hagrees
            cases hagrees with
            | error => exact (hplain _ _ rfl).1
            | @ok stack' slots' t hlength hsize hmirrors =>
              exact ⟨⟨rest, _, stack', _, _, _, _, _, _, hrest, hprepared, hlength ▸ next,
                hsize ▸ hlimit, hmirrors, hholds _ rfl, (hplain _ _ rfl).2 _ rfl⟩,
                hslots.exec hsteady.inside.pos (hkind hrule) hexec, hkeeps.of_memo_eq hmemo⟩
          · exact (hmirrors.deed?_eq stmts_eq).symm.trans hd
  | @branch opcode operands held otherwise rest n n' kinds kinds_held kinds_otherwise kinds₁ kinds'
      hsplits _ _ hheld hotherwise hrest _ _ _ =>
    obtain ⟨⟨hprepared_held, hprepared_otherwise⟩, hprepared⟩ := hprepared
    cases hunrolls with
    | @branch _ _ _ _ _ cond then_ else_ body _ after _ condition cond_eq unrolls_held
        unrolls_otherwise next =>
      refine ⟨⟨?_, hslots, hkeeps⟩, nofun⟩
      have hblock : if Interpreter.holds E opcode (Instr.arg operands) stack s then _ else _ :=
        Interpreter.holds_of_holds hsplits hstack
      rw [hmirrors.holds s condition cond_eq]
      cases hholds : Interpreter.holds E opcode (Instr.arg operands) stack s with
      | true =>
        rw [hholds] at hblock
        have htyped := (hheld.within n).append ((Nat.zero_add n).symm ▸ hrest)
        exact ⟨held ++ rest, _, stack, _, _, _, _, _, _, htyped,
          Code.Prepared.append hprepared_held hprepared, unrolls_held.append next, hlimit,
          hmirrors, hblock, hsteady.holds hholds⟩
      | false =>
        rw [hholds] at hblock
        have htyped := (hotherwise.within n).append ((Nat.zero_add n).symm ▸ hrest)
        exact ⟨otherwise ++ rest, _, stack, _, _, _, _, _, _, htyped,
          Code.Prepared.append hprepared_otherwise hprepared, unrolls_otherwise.append next, hlimit,
          hmirrors, hblock, hsteady.forget⟩
  | @loop body rest n n' kinds kinds' hbody hrest _ _ =>
    obtain ⟨hprepared_body, hprepared⟩ := hprepared
    have hwhole := hunrolls
    cases hunrolls with
    | @loop _ _ inner body' _ top _ top_eq unrolls_block next =>
      refine ⟨⟨?_, hslots, hkeeps⟩, nofun⟩
      have htop : (Cond.notFailed top).holds E slots s = !(stack.getD 0 .failed).isFailed := by
        rw [Cond.holds, hmirrors.slotBelow top_eq]
      obtain ⟨v, items, rfl, hv, hitems⟩ := hstack.cons_eq
      rw [htop]
      cases hv with
      | failure =>
        exact ⟨rest, _, _, _, _, _, _, _, _, hrest, hprepared, next, hlimit, hmirrors,
          .cons .failed hitems, hsteady.forget⟩
      | success v =>
        have htyped : Code.Typed E.program (body ++ .loop body :: rest) (0 + n) (.value :: kinds)
            n' kinds' :=
          (hbody.within n).append ((Nat.zero_add n).symm ▸ .loop hbody hrest)
        have hagain : Code.Prepared (.loop body :: rest) := ⟨hprepared_body, hprepared⟩
        exact ⟨body ++ .loop body :: rest, _, _, _, _, _, _, _, _, htyped,
          Code.Prepared.append hprepared_body hagain, unrolls_block.append hwhole, hlimit, hmirrors,
          .cons (.value v) hitems, hsteady.forget⟩

namespace Steady

variable {base : Nat} {stmts : List Stmt} {slots : Array Slot} {s : State σ}

theorem inside (h : Steady E base stmts slots s) : s.Inside E.input := by
  obtain ⟨_, _, _, _, _, _, _, _, _, -, -, -, -, -, -, hsteady⟩ := h.front
  exact hsteady.inside

theorem step (h : Steady E base stmts slots s) :
    (step E stmts slots s).Steady E base ∧
      ∀ d, stmts.head?.bind (·.deed? slots) = some d → d.Safe E s := by
  obtain ⟨⟨c, k, stack, n, kinds, n', kinds', limit, last, htyped, hprepared, hunrolls, hlimit,
    hmirrors, hstack, hsteady⟩, hslots, hkeeps⟩ := h
  exact step_steady htyped hprepared hunrolls hlimit hmirrors hstack hsteady hslots hkeeps

end Steady

/-! ## Runs -/

section

variable {rs : Array Routine} (hroutines : E.program.routines = .ok rs)
  (hcode : ∀ (i : Nat) r, E.program.rules[i]? = some r → (Frame.start r.code).Typed E.program)
  (hprepared : ∀ (i : Nat) r, E.program.rules[i]? = some r →
    ∃ c, Placed r.code c 0 r.code.size ∧ c.Prepared)
include hroutines hcode hprepared

/-- An invocation by routines gives a result and does not end in front of where it began. -/
theorem settled_and_advanced_of_runRule {n index : Nat} {s t : State σ} {o : Outcome Slot}
    (hs : s.Inside E.input) (hkeeps : s.KeepsResults)
    (hrun : runRule E rs n index s = some (o, t)) :
    Settled o t ∧ Advanced E.input s.pos o t := by
  obtain ⟨m, hm⟩ := (Routine.runRule_iff hroutines).mpr ⟨n, hrun⟩
  exact ⟨Interpreter.settled_of_runRule hcode hkeeps hm,
    Interpreter.advanced_of_runRule hcode hprepared hs hkeeps hm⟩

/-- A routine is unrolled from the code that its rule is known to have. -/
theorem exists_unrolledFrom {index : Nat} {r : Routine} (hr : rs[index]? = some r) :
    ∃ c n n' kinds', Code.Typed E.program c n [] n' kinds' ∧ c.Prepared ∧ UnrolledFrom c r := by
  obtain ⟨codes, hlaid, hunrolled⟩ := Program.routines_eq_ok hroutines
  have hfrom : Option.Rel UnrolledFrom codes[index]? rs[index]? := by
    simpa using getElem?_rel hunrolled index
  have hplaced := hlaid index
  rw [hr] at hfrom
  generalize codes[index]? = code at hfrom hplaced
  cases hfrom with
  | @some c _ hfrom =>
    cases hrule : E.program.rules[index]? with
    | none =>
      rw [hrule] at hplaced
      cases hplaced
    | some rule =>
      rw [hrule] at hplaced
      cases hplaced with
      | some hplaced =>
        obtain ⟨c₁, n, n', kinds, kinds', hplaced₁, htyped, hstack, -⟩ := hcode index rule hrule
        obtain ⟨c₂, hplaced₂, hprepared⟩ := hprepared index rule hrule
        obtain rfl : c = c₁ := hplaced.unique hplaced₁
        obtain rfl : c = c₂ := hplaced.unique hplaced₂
        cases hstack
        exact ⟨c, n, n', kinds', htyped, hprepared, hfrom⟩

/-- Wherever a routine is, the moment is steady. -/
theorem Occurs.steady {index : Nat} {s t : State σ} {stmts : List Stmt} {slots : Array Slot}
    (h : Occurs E rs index s stmts slots t) (hs : s.Inside E.input) (hkeeps : s.KeepsResults) :
    ∃ base, Steady E base stmts slots t := by
  induction h with
  | @enter index s r _ routine =>
    obtain ⟨c, n, n', kinds', htyped, hprep, hfrom⟩ :=
      exists_unrolledFrom hroutines hcode hprepared routine
    have hentered : State.Inside E.input { s.entered E index with currentRule := some index } :=
      (hs.stays (s.stays_entered E index)).stays ⟨rfl, rfl, rfl, .inl rfl⟩
    exact ⟨_, ⟨c, .nothing, [], n, [], n', kinds', r.slots, 1, htyped, hprep, hfrom.unrolls,
      (Array.size_replicate).ge, .nil, .nil, .start hentered⟩, .replicate _ _,
      hkeeps.entered E index⟩
  | next _ hnext ih =>
    obtain ⟨base, hsteady⟩ := ih hs hkeeps
    have hstep := hsteady.step.1
    rw [hnext] at hstep
    exact ⟨base, hstep⟩
  | inside _ hinvoke _ ih ih_inner =>
    obtain ⟨base, hsteady⟩ := ih hs hkeeps
    have hstep := hsteady.step.1
    rw [hinvoke] at hstep
    exact ih_inner hstep.1 hstep.2.1
  | @back index callee target n s t u w stmts rest slots slots' v _ hinvoke hreturns ih =>
    obtain ⟨base, hsteady⟩ := ih hs hkeeps
    have hstep := hsteady.step.1
    rw [hinvoke] at hstep
    obtain ⟨hu, hkept, hgoes⟩ := hstep
    obtain ⟨hsettled, hadvanced⟩ :=
      settled_and_advanced_of_runRule hroutines hcode hprepared hu hkept hreturns
    exact ⟨base, hgoes v w (hsettled.result v rfl) hadvanced.inside hsettled.keeps
      (hadvanced.le v rfl)⟩

end

end Routine

end PegMachine
