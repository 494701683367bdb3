import Mathlib.Algebra.GroupWithZero.Nat
import PegMachine.Parser

/-!
# Brackets of events

The events of a parse are brackets: each invocation of a rule is entered once and left once, and
what it invokes itself stands in between. So every event can be told which rule was open around its
invocation, and counting events by kind, rule and enclosing rule gives what the statistics count.
Here are the brackets, what it means that counters grew by the events of a list, and what each way
to count adds.
-/

namespace PegMachine

namespace TraceEvent

/-- Whether an outcome was recalled. -/
def Kind.isRecall : Kind → Bool
  | .recalledMatch | .recalledFailure => true
  | _ => false

/-- Events of whole invocations, one after the other. An invocation is left where it was entered,
under the same name, after the invocations in between. -/
inductive Nested : List TraceEvent → Prop where
  | nil : Nested []
  | invocation {enter exit : TraceEvent} {inside rest : List TraceEvent}
    (enters : enter.kind = .enter) (exits : exit.kind.isExit = true) (rule : exit.rule = enter.rule)
    (start : exit.location.start = enter.location.start) (nested : Nested inside)
    (more : Nested rest) : Nested (enter :: (inside ++ exit :: rest))

theorem Nested.append {a b : List TraceEvent} (ha : Nested a) (hb : Nested b) :
    Nested (a ++ b) := by
  induction ha with
  | nil => exact hb
  | invocation enters exits rule start nested _ _ ih =>
    rw [List.cons_append, List.append_assoc, List.cons_append]
    exact .invocation enters exits rule start nested ih

/-- Each event with the innermost rule that is open around its invocation, given the rules that are
open before the first event, the innermost one first. -/
def enclosed : List String → List TraceEvent → List (TraceEvent × Option String)
  | _, [] => []
  | rules, e :: rest =>
    if e.kind.isExit then (e, rules.tail.head?) :: enclosed rules.tail rest
    else (e, rules.head?) :: enclosed (e.rule :: rules) rest

section

variable {e enter exit : TraceEvent} {inside rest a b : List TraceEvent} {rules : List String}

theorem enclosed_enter (h : e.kind = .enter) :
    enclosed rules (e :: rest) = (e, rules.head?) :: enclosed (e.rule :: rules) rest := by
  rw [enclosed, h]
  rfl

theorem enclosed_exit (h : e.kind.isExit = true) :
    enclosed rules (e :: rest) = (e, rules.tail.head?) :: enclosed rules.tail rest := by
  rw [enclosed, if_pos h]

/-- After whole invocations the same rules are open as before. -/
theorem Nested.enclosed_append (h : Nested a) (rules : List String) :
    enclosed rules (a ++ b) = enclosed rules a ++ enclosed rules b := by
  induction h generalizing rules b with
  | nil => rfl
  | invocation enters exits _ _ _ _ ihInside ihRest =>
    rw [List.cons_append, List.append_assoc, List.cons_append, enclosed_enter enters,
      enclosed_enter enters, ihInside, ihInside, enclosed_exit exits, enclosed_exit exits]
    simp [ihRest]

/-- Only the innermost of the open rules matters for whole invocations. -/
theorem Nested.enclosed_congr (h : Nested a) {rules rules' : List String}
    (hhead : rules.head? = rules'.head?) : enclosed rules a = enclosed rules' a := by
  induction h generalizing rules rules' with
  | nil => rfl
  | @invocation enter exit inside rest enters exits _ _ nested _ ihInside ihRest =>
    have hinside : enclosed (enter.rule :: rules) inside = enclosed (enter.rule :: rules') inside :=
      ihInside rfl
    rw [enclosed_enter enters, enclosed_enter enters, nested.enclosed_append,
      nested.enclosed_append, enclosed_exit exits, enclosed_exit exits, List.tail_cons,
      List.tail_cons, hinside, ihRest hhead, hhead]

/-- The events of one invocation. -/
theorem enclosed_invocation (enters : enter.kind = .enter) (exits : exit.kind.isExit = true)
    (nested : Nested inside) : enclosed rules (enter :: (inside ++ [exit])) =
      (enter, rules.head?) :: (enclosed [enter.rule] inside ++ [(exit, rules.head?)]) := by
  have hhead : (enter.rule :: rules).head? = [enter.rule].head? := rfl
  rw [enclosed_enter enters, nested.enclosed_append, nested.enclosed_congr hhead,
    enclosed_exit exits]
  rfl

end

/-- Whether an event is of some kinds and about a rule. -/
def isOf (kinds : Kind → Bool) (rule : String) (e : TraceEvent × Option String) : Bool :=
  kinds e.1.kind && e.1.rule = rule

/-- Whether an event is of some kinds and about a rule that was invoked by another one, or by
none. -/
def isFrom (kinds : Kind → Bool) (rule : String) (caller : Option String)
    (e : TraceEvent × Option String) : Bool :=
  isOf kinds rule e && e.2 = caller

end TraceEvent

open TraceEvent

/-! ## Callers -/

namespace RuleCounters

/-- The counters of the calls from a rule. -/
def caller (c : RuleCounters) (index : Nat) : CallerCounters :=
  ((c.callers.find? (·.1 = index)).map (·.2)).getD {}

/-- The invocations by all callers together. -/
def calls (c : RuleCounters) : Nat := (c.callers.map (·.2.visit)).sum

/-- Callers stand in the order of their indices. -/
def Sorted (c : RuleCounters) : Prop := c.callers.Pairwise (·.1 < ·.1)

section

variable {f : CallerCounters → CallerCounters} {callers : List (Nat × CallerCounters)} {index : Nat}

theorem mem_updateCaller {entry : Nat × CallerCounters}
    (h : entry ∈ updateCaller index f callers) : entry.1 = index ∨ entry ∈ callers := by
  induction callers with
  | nil =>
    rw [updateCaller, List.mem_singleton] at h
    exact .inl (h ▸ rfl)
  | cons first rest ih =>
    obtain ⟨other, k⟩ := first
    rw [updateCaller] at h
    split at h
    · rcases List.mem_cons.mp h with rfl | h
      · exact .inl rfl
      · exact .inr h
    · split at h
      · rcases List.mem_cons.mp h with rfl | h
        · exact .inl rfl
        · exact .inr (List.mem_cons_of_mem _ h)
      · rcases List.mem_cons.mp h with rfl | h
        · exact .inr List.mem_cons_self
        · exact (ih h).imp_right (List.mem_cons_of_mem _)

theorem pairwise_updateCaller (h : callers.Pairwise (·.1 < ·.1)) :
    (updateCaller index f callers).Pairwise (·.1 < ·.1) := by
  induction callers with
  | nil => exact List.pairwise_singleton _ _
  | cons first rest ih =>
    obtain ⟨other, k⟩ := first
    obtain ⟨hfirst, hrest⟩ := List.pairwise_cons.mp h
    rw [updateCaller]
    split
    · next hlt =>
      refine List.pairwise_cons.mpr ⟨fun entry hentry => ?_, h⟩
      rcases List.mem_cons.mp hentry with rfl | hentry
      · exact hlt
      · exact Nat.lt_trans hlt (hfirst entry hentry)
    · next hle =>
      split
      · next heq =>
        subst heq
        exact List.pairwise_cons.mpr ⟨hfirst, hrest⟩
      · next hne =>
        refine List.pairwise_cons.mpr ⟨fun entry hentry => ?_, ih hrest⟩
        rcases mem_updateCaller hentry with hindex | hentry
        · rw [hindex]
          dsimp only
          omega
        · exact hfirst entry hentry

/-- Among sorted callers just the counters of the one are changed. -/
theorem find?_updateCaller (h : callers.Pairwise (·.1 < ·.1)) (other : Nat) :
    (((updateCaller index f callers).find? (·.1 = other)).map (·.2)).getD {} =
      if other = index then f (((callers.find? (·.1 = index)).map (·.2)).getD {})
      else ((callers.find? (·.1 = other)).map (·.2)).getD {} := by
  induction callers with
  | nil => by_cases hother : other = index <;> simp [updateCaller, hother, eq_comm]
  | cons first rest ih =>
    obtain ⟨i, k⟩ := first
    obtain ⟨hfirst, hrest⟩ := List.pairwise_cons.mp h
    rw [updateCaller]
    split
    · next hlt =>
      have habsent : ((i, k) :: rest).find? (·.1 = index) = none := by
        refine List.find?_eq_none.mpr fun entry hentry => ?_
        rcases List.mem_cons.mp hentry with rfl | hentry
        · simpa using Nat.ne_of_gt hlt
        · simpa using Nat.ne_of_gt (Nat.lt_trans hlt (hfirst entry hentry))
      rw [habsent, List.find?_cons]
      by_cases hother : other = index
      · simp [hother]
      · simp [hother, Ne.symm hother]
    · next hle =>
      split
      · next heq =>
        subst heq
        by_cases hother : other = index <;> simp [hother, eq_comm]
      · next hne =>
        have ih := ih hrest
        by_cases hi : i = other
        · subst hi
          simp [Ne.symm hne]
        · simpa [List.find?_cons, hi, Ne.symm hne] using ih

theorem sum_updateCaller {n : Nat} (hf : ∀ k, (f k).visit = k.visit + n) :
    ((updateCaller index f callers).map (·.2.visit)).sum = (callers.map (·.2.visit)).sum + n := by
  induction callers with
  | nil => simp [updateCaller, hf]
  | cons first rest ih =>
    obtain ⟨other, k⟩ := first
    rw [updateCaller]
    split
    · simp only [List.map_cons, List.sum_cons, hf]
      omega
    · split
      · simp only [List.map_cons, List.sum_cons, hf]
        omega
      · simp only [List.map_cons, List.sum_cons, ih]
        omega

end

section

variable {c : RuleCounters} {f : CallerCounters → CallerCounters}

theorem countCaller_eq (caller : Option Nat) :
    c.countCaller caller f = { c with callers := (c.countCaller caller f).callers } := by
  cases caller <;> rfl

theorem Sorted.countVisit (h : c.Sorted) (caller : Option Nat) :
    (c.countVisit caller).Sorted := by
  cases caller with
  | none => exact h
  | some caller => exact pairwise_updateCaller h

theorem Sorted.countRecall (h : c.Sorted) (caller : Option Nat) (failed silent : Bool) :
    (c.countRecall caller failed silent).Sorted := by
  cases caller with
  | none => exact h
  | some caller => exact pairwise_updateCaller h

theorem caller_countCaller (h : c.Sorted) (caller : Option Nat) (index : Nat) :
    (c.countCaller caller f).caller index =
      if caller = some index then f (c.caller index) else c.caller index := by
  cases caller with
  | none => rfl
  | some other =>
    refine (find?_updateCaller h index).trans ?_
    by_cases hother : other = index
    · subst hother
      simp only [if_true]
      rfl
    · rw [if_neg (Ne.symm hother), if_neg (by simpa using hother)]
      rfl

theorem calls_countCaller {n : Nat} (hf : ∀ k, (f k).visit = k.visit + n) (caller : Option Nat) :
    (c.countCaller caller f).calls = c.calls + if caller.isSome then n else 0 := by
  cases caller with
  | none => rfl
  | some other => exact sum_updateCaller hf

end

/-! ## What counters tell -/

/-- One number grows at least as much as another one. -/
def Outgrows (n n' m m' : Nat) : Prop := ∃ a b, n' = n + a ∧ m' = m + b ∧ b ≤ a

theorem Outgrows.refl (n m : Nat) : Outgrows n n m m := ⟨0, 0, rfl, rfl, Nat.le_refl 0⟩

theorem Outgrows.trans {n n' n'' m m' m'' : Nat} (h : Outgrows n n' m m')
    (h' : Outgrows n' n'' m' m'') : Outgrows n n'' m m'' := by
  obtain ⟨a, b, rfl, rfl, hle⟩ := h
  obtain ⟨a', b', rfl, rfl, hle'⟩ := h'
  exact ⟨a + a', b + b', by omega, by omega, by omega⟩

/-- What the counters of a rule grew by is what some events tell about it. The callers have names,
and there are so many of them. -/
structure Tells (names : Nat → String) (size : Nat) (rule : String)
    (events : List (TraceEvent × Option String)) (c c' : RuleCounters) : Prop where
  name : c'.name = c.name
  memoized : c'.memoized = c.memoized
  visit : c'.visit = c.visit + events.countP (isOf (· = .enter) rule)
  cacheHit : c'.cacheHit = c.cacheHit + events.countP (isOf (·.isRecall) rule)
  returnFail : c'.returnFail = c.returnFail + events.countP (isOf (· = .failed) rule)
  returnCachedFail :
    c'.returnCachedFail = c.returnCachedFail + events.countP (isOf (· = .recalledFailure) rule)
  callerVisit : ∀ p < size, (c'.caller p).visit =
    (c.caller p).visit + events.countP (isFrom (· = .enter) rule (some (names p)))
  callerHit : ∀ p < size, (c'.caller p).cacheHit =
    (c.caller p).cacheHit + events.countP (isFrom (·.isRecall) rule (some (names p)))
  outermost : c'.calls + events.countP (isFrom (· = .enter) rule none) =
    c.calls + events.countP (isOf (· = .enter) rule)
  fail : Outgrows c.fail c'.fail c.silentFail c'.silentFail
  returnSilentFail :
    Outgrows c.returnFail c'.returnFail c.returnSilentFail c'.returnSilentFail
  returnCachedSilentFail : Outgrows c.returnCachedFail c'.returnCachedFail
    c.returnCachedSilentFail c'.returnCachedSilentFail

section

variable {names : Nat → String} {size : Nat} {rule : String} {c c' c'' : RuleCounters}
  {events events' : List (TraceEvent × Option String)}

theorem Tells.trans (h : Tells names size rule events c c')
    (h' : Tells names size rule events' c' c'') :
    Tells names size rule (events ++ events') c c'' where
  name := h'.name.trans h.name
  memoized := h'.memoized.trans h.memoized
  visit := by rw [h'.visit, h.visit, List.countP_append, Nat.add_assoc]
  cacheHit := by rw [h'.cacheHit, h.cacheHit, List.countP_append, Nat.add_assoc]
  returnFail := by rw [h'.returnFail, h.returnFail, List.countP_append, Nat.add_assoc]
  returnCachedFail := by
    rw [h'.returnCachedFail, h.returnCachedFail, List.countP_append, Nat.add_assoc]
  callerVisit p hp := by
    rw [h'.callerVisit p hp, h.callerVisit p hp, List.countP_append, Nat.add_assoc]
  callerHit p hp := by
    rw [h'.callerHit p hp, h.callerHit p hp, List.countP_append, Nat.add_assoc]
  outermost := by
    have hfirst := h.outermost
    have hthen := h'.outermost
    rw [List.countP_append, List.countP_append]
    omega
  fail := h.fail.trans h'.fail
  returnSilentFail := h.returnSilentFail.trans h'.returnSilentFail
  returnCachedSilentFail := h.returnCachedSilentFail.trans h'.returnCachedSilentFail

/-- Counters of a rule stay as they are where events are about other rules. -/
theorem tells_of_ne (h : ∀ e ∈ events, e.1.rule ≠ rule) : Tells names size rule events c c := by
  have hnone (kinds : TraceEvent.Kind → Bool) : events.countP (isOf kinds rule) = 0 :=
    List.countP_eq_zero.mpr fun e he => by simp [isOf, h e he]
  have hnone' (kinds : TraceEvent.Kind → Bool) (caller : Option String) :
      events.countP (isFrom kinds rule caller) = 0 :=
    List.countP_eq_zero.mpr fun e he => by simp [isFrom, isOf, h e he]
  constructor
  case fail | returnSilentFail | returnCachedSilentFail => exact .refl _ _
  all_goals simp [hnone, hnone']

theorem tells_countFail (silent : Bool) :
    Tells names size rule [] c (c.countFail silent) := by
  constructor
  case fail => exact ⟨1, silent.toNat, rfl, rfl, by cases silent <;> decide⟩
  case returnSilentFail | returnCachedSilentFail => exact .refl _ _
  all_goals simp [countFail, caller, calls]

theorem tells_countPushedFail : Tells names size rule [] c c.countPushedFail := by
  constructor
  case fail | returnSilentFail | returnCachedSilentFail => exact .refl _ _
  all_goals simp [countPushedFail, caller, calls]

end

section

variable {names : Nat → String} {size : Nat} {c : RuleCounters} {e : TraceEvent}

/-- An event about a rule counts if it is of the kind that is counted. -/
theorem countP_isOf (kinds : TraceEvent.Kind → Bool) (caller : Option String) :
    [(e, caller)].countP (isOf kinds e.rule) = if kinds e.kind then 1 else 0 := by
  simp [List.countP_singleton, isOf]

theorem countP_isFrom (kinds : TraceEvent.Kind → Bool) (caller other : Option String) :
    [(e, caller)].countP (isFrom kinds e.rule other) =
      if kinds e.kind ∧ caller = other then 1 else 0 := by
  simp [List.countP_singleton, isFrom, isOf]

variable (hnames : ∀ i < size, ∀ j < size, names i = names j → i = j) {invoker : Option Nat}
  (hinvoker : ∀ i ∈ invoker, i < size)
include hnames hinvoker

/-- Callers are told apart by their names. -/
theorem map_names_eq_some {p : Nat} (hp : p < size) :
    invoker.map names = some (names p) ↔ invoker = some p := by
  rw [Option.map_eq_some_iff]
  constructor
  · rintro ⟨i, rfl, hi⟩
    exact congrArg some (hnames i (hinvoker i rfl) p hp hi)
  · rintro rfl
    exact ⟨p, rfl, rfl⟩

theorem countP_isFrom_name (kinds : TraceEvent.Kind → Bool) {p : Nat} (hp : p < size) :
    [(e, invoker.map names)].countP (isFrom kinds e.rule (some (names p))) =
      if kinds e.kind ∧ invoker = some p then 1 else 0 := by
  rw [countP_isFrom]
  simp only [map_names_eq_some hnames hinvoker hp]

theorem tells_countVisit (hc : c.Sorted) (he : e.kind = .enter) :
    Tells names size e.rule [(e, invoker.map names)] c (c.countVisit invoker) := by
  constructor
  case callerVisit | callerHit =>
    intro p hp
    rw [countVisit, caller_countCaller, countP_isFrom_name hnames hinvoker _ hp]
    · by_cases hp' : invoker = some p <;>
        simp [hp', he, RuleCounters.caller, TraceEvent.Kind.isRecall]
    · exact hc
  case outermost =>
    rw [countVisit, calls_countCaller (n := 1) fun _ => rfl, countP_isOf, countP_isFrom]
    cases invoker <;> simp [he, calls]
  case name | memoized => rw [countVisit, countCaller_eq]
  case fail | returnSilentFail | returnCachedSilentFail =>
    rw [countVisit, countCaller_eq]
    exact .refl _ _
  all_goals
    rw [countVisit, countCaller_eq]
    simp [isOf, he, TraceEvent.Kind.isRecall]

theorem tells_countRecall (hc : c.Sorted) (failed silent : Bool)
    (he : e.kind = if failed then .recalledFailure else .recalledMatch) :
    Tells names size e.rule [(e, invoker.map names)] c (c.countRecall invoker failed silent) := by
  constructor
  case callerVisit | callerHit =>
    intro p hp
    rw [countRecall, caller_countCaller, countP_isFrom_name hnames hinvoker _ hp]
    · by_cases hp' : invoker = some p <;> cases failed <;>
        simp [hp', he, RuleCounters.caller, TraceEvent.Kind.isRecall]
    · exact hc
  case outermost =>
    rw [countRecall, calls_countCaller (n := 0) (f := fun k => { k with cacheHit := k.cacheHit + 1 })
      fun _ => rfl, countP_isOf, countP_isFrom]
    cases failed <;> simp [he, calls]
  case returnCachedSilentFail =>
    rw [countRecall, countCaller_eq]
    exact ⟨_, _, rfl, rfl, by cases failed <;> cases silent <;> decide⟩
  case fail | returnSilentFail =>
    rw [countRecall, countCaller_eq]
    exact .refl _ _
  case name | memoized => rw [countRecall, countCaller_eq]
  all_goals
    rw [countRecall, countCaller_eq]
    cases failed <;> simp [isOf, he, TraceEvent.Kind.isRecall]

omit hnames hinvoker in
theorem tells_countReturn (invoker : Option Nat) (failed silent : Bool)
    (he : e.kind = if failed then .failed else .matched) :
    Tells names size e.rule [(e, invoker.map names)] c (c.countReturn failed silent) := by
  constructor
  case returnSilentFail =>
    exact ⟨_, _, rfl, rfl, by cases failed <;> cases silent <;> decide⟩
  case fail | returnCachedSilentFail => exact .refl _ _
  all_goals
    cases failed <;>
      simp [countReturn, isFrom, isOf, he, TraceEvent.Kind.isRecall, caller, calls]

end

end RuleCounters

/-! ## Statistics -/

/-- Different rules have different names. -/
def Program.UniqueNames (p : Program) : Prop :=
  ∀ i < p.rules.size, ∀ j < p.rules.size, p.ruleName i = p.ruleName j → i = j

namespace Statistics

variable {p : Program} {a b c : Statistics}

/-- Statistics have counters for each rule of a program, and these have their callers in order. -/
structure For (p : Program) (s : Statistics) : Prop where
  size : s.rules.size = p.rules.size
  sorted : ∀ c ∈ s.rules, c.Sorted

/-- What the counters of each rule grew by is what some events tell about it. -/
def Tells (p : Program) (events : List (TraceEvent × Option String)) (a b : Statistics) : Prop :=
  ∀ r < p.rules.size, ∃ c c', a.rules[r]? = some c ∧ b.rules[r]? = some c' ∧
    RuleCounters.Tells p.ruleName p.rules.size (p.ruleName r) events c c'

/-- Nothing is counted before any parse. -/
theorem for_noStatistics (p : Program) : For p (Parser.noStatistics p) where
  size := by simp [Parser.noStatistics, zero]
  sorted c hc := by
    simp only [Parser.noStatistics, zero, List.mem_toArray, List.mem_map] at hc
    obtain ⟨r, -, rfl⟩ := hc
    exact .nil

theorem For.getElem? (h : a.For p) {r : Nat} (hr : r < p.rules.size) :
    ∃ c, a.rules[r]? = some c ∧ c.Sorted := by
  have hlt : r < a.rules.size := h.size ▸ hr
  exact ⟨a.rules[r], Array.getElem?_eq_getElem hlt, h.sorted _ (Array.getElem_mem hlt)⟩

theorem For.update (h : a.For p) (index : Nat) {f : RuleCounters → RuleCounters}
    (hf : ∀ c, c.Sorted → (f c).Sorted) : (a.update index f).For p where
  size := (Array.size_modify ..).trans h.size
  sorted c hc := by
    obtain ⟨r, hr⟩ := Array.mem_iff_getElem?.mp hc
    rw [Statistics.update, Array.getElem?_modify] at hr
    split at hr
    · obtain ⟨c', hc', rfl⟩ := Option.map_eq_some_iff.mp hr
      exact hf c' (h.sorted c' (Array.mem_of_getElem? hc'))
    · exact h.sorted c (Array.mem_of_getElem? hr)

theorem For.tells_refl (h : a.For p) : Tells p [] a a := by
  intro r hr
  obtain ⟨c, hc, -⟩ := h.getElem? hr
  exact ⟨c, c, hc, hc, RuleCounters.tells_of_ne nofun⟩

theorem Tells.trans {events events' : List (TraceEvent × Option String)}
    (h : Tells p events a b) (h' : Tells p events' b c) : Tells p (events ++ events') a c := by
  intro r hr
  obtain ⟨ca, cb, ha, hb, htells⟩ := h r hr
  obtain ⟨cb', cc, hb', hc, htells'⟩ := h' r hr
  obtain rfl : cb = cb' := Option.some.inj (hb.symm.trans hb')
  exact ⟨ca, cc, ha, hc, htells.trans htells'⟩

/-- Events about one rule tell what its counters grew by. -/
theorem For.tells_update (h : a.For p) (hnames : p.UniqueNames) {index : Nat}
    (hindex : index < p.rules.size) {events : List (TraceEvent × Option String)}
    (hevents : ∀ e ∈ events, e.1.rule = p.ruleName index) {f : RuleCounters → RuleCounters}
    (hf : ∀ c, c.Sorted → RuleCounters.Tells p.ruleName p.rules.size (p.ruleName index) events c
      (f c)) : Tells p events a (a.update index f) := by
  intro r hr
  obtain ⟨c, hc, hsorted⟩ := h.getElem? hr
  rw [Statistics.update, Array.getElem?_modify, hc]
  by_cases hsame : index = r
  · subst hsame
    exact ⟨c, f c, rfl, by simp, hf c hsorted⟩
  · refine ⟨c, c, rfl, by simp [hsame], RuleCounters.tells_of_ne fun e he hrule => hsame ?_⟩
    exact hnames index hindex r hr ((hevents e he).symm.trans hrule)

end Statistics

end PegMachine
