import PegMachine.Analysis.Recursion
import PegMachine.Proofs.Accepted
import PegMachine.Proofs.Guards
import PegMachine.Proofs.Records
import PegMachine.Proofs.Removal

/-!
# Checked grammars make progress

If no reference leads a rule back to itself without consuming anything, the rules can be ranked by
how many rules they lead to in that way, and whatever a rule begins at once is of a lower rank. If
no repetition goes on forever either, every rule is guarded by its rank.
-/

namespace PegMachine

open Grammar Peg

/-- The name in a reference, and where it stands. -/
def Grammar.reference? (g : Grammar) (id : NodeId) : Option (String × Option Location) :=
  match g.shape id with
  | .ruleRef name => some (name, (g.node id).location)
  | _ => none

namespace Facts

variable {f : Facts} {g : Grammar}

/-- What is known of a node says that it consumes something. -/
def Eats (f : Facts) (id : NodeId) : Prop := f.matchesEmpty id = false

theorem eats_iff {id : NodeId} : f.Eats id ↔ 0 < (f.consumptionOf id).min := by
  rw [Eats, matchesEmpty, Consumption.matchesEmpty, beq_eq_false_iff_ne, Nat.pos_iff_ne_zero]

/-! ## Calls -/

theorem mem_leadingCalls {calls : NodeId → List Call} {es : List NodeId} {call : Call}
    (h : call ∈ f.leadingCalls calls es) : ∃ e ∈ es, call ∈ calls e := by
  induction es with
  | nil => cases h
  | cons e es ih =>
    rw [leadingCalls, List.mem_append] at h
    rcases h with h | h
    · exact ⟨e, List.mem_cons_self, h⟩
    · split at h
      · obtain ⟨e', he', hcall⟩ := ih h
        exact ⟨e', List.mem_cons_of_mem _ he', hcall⟩
      · cases h

/-- A call is made by a reference below the node, to the rule that it refers to. -/
theorem mem_leftCalls {depth : Nat} {id : NodeId} {call : Call}
    (h : call ∈ f.leftCalls g depth id) :
    g.Below id call.node ∧ f.target? call.node = some call.target := by
  induction depth generalizing id with
  | zero => cases h
  | succ depth ih =>
    have hchild {e : NodeId} (he : e ∈ g.children id) (hcall : call ∈ f.leftCalls g depth e) :
        g.Below id call.node ∧ f.target? call.node = some call.target := by
      obtain ⟨hbelow, htarget⟩ := ih hcall
      exact ⟨.head he hbelow, htarget⟩
    rw [leftCalls] at h
    rw [children] at hchild
    split at h
    · next es hshape =>
      obtain ⟨e, he, hcall⟩ := mem_leadingCalls h
      exact hchild (by rwa [hshape]) hcall
    · next min max e delimiter hshape =>
      obtain ⟨e', he', hcall⟩ := mem_leadingCalls h
      exact hchild (by rwa [hshape]) hcall
    · obtain ⟨target, htarget, rfl⟩ := Option.map_eq_some_iff.mp (Option.mem_toList.mp h)
      exact ⟨.refl, htarget⟩
    · obtain ⟨e, he, hcall⟩ := List.mem_flatMap.mp h
      exact hchild he hcall

/-! ## Guards -/

/-- A rule that is called may be begun. -/
def Allows (g : Grammar) (low : String → Prop) (call : Call) : Prop :=
  ∀ name, g.shape call.node = .ruleRef name → low name

theorem Allows.mono {low low' : String → Prop} {call : Call} (h : Allows g low call)
    (hlow : ∀ name, low name → low' name) : Allows g low' call :=
  fun name hname => hlow name (h name hname)

theorem led_of_leadingCalls {guarded : (String → Prop) → NodeId → Prop} {calls : NodeId → List Call}
    {es : List NodeId} {low : String → Prop}
    (hguarded : ∀ e ∈ es, ∀ low', (∀ name, low name → low' name) →
      (∀ call ∈ calls e, Allows g low' call) → guarded low' e)
    (hcalls : ∀ call ∈ f.leadingCalls calls es, Allows g low call) :
    Led f.Eats guarded low es := by
  induction es generalizing low with
  | nil => trivial
  | cons e es ih =>
    rw [leadingCalls] at hcalls
    refine ⟨hguarded e List.mem_cons_self low (fun _ h => h) fun call hcall =>
      hcalls call (List.mem_append_left _ hcall), ih ?_ ?_⟩
    · intro e' he' low' hlow
      exact hguarded e' (List.mem_cons_of_mem _ he') low' fun name h => hlow name (.inr h)
    · intro call hcall
      cases hempty : f.matchesEmpty e with
      | false => exact fun name _ => .inl hempty
      | true =>
        rw [hempty, if_pos rfl] at hcalls
        exact (hcalls call (List.mem_append_right _ hcall)).mono fun _ => .inr

/-- A node is guarded if the rules may be begun that it calls without consuming anything, and no
repetition below it goes on forever. -/
theorem guarded_of_leftCalls {depth : Nat} {id : NodeId} {low : String → Prop}
    (hwithin : g.Within depth id)
    (hloops : ∀ x, g.Below id x → f.loopsForever g x = false)
    (hunknown : ∀ x name, g.Below id x → g.shape x = .ruleRef name → f.target? x = none → low name)
    (hcalls : ∀ call ∈ f.leftCalls g depth id, Allows g low call) :
    g.Guarded f.Eats depth low id := by
  induction depth generalizing id low with
  | zero => exact hwithin.elim
  | succ depth ih =>
    have hchild (e : NodeId) (he : e ∈ g.children id) (low' : String → Prop)
        (hlow : ∀ name, low name → low' name)
        (hcalls : ∀ call ∈ f.leftCalls g depth e, Allows g low' call) :
        g.Guarded f.Eats depth low' e := by
      refine ih (hwithin.2 e he) (fun x hx => hloops x (.head he hx)) ?_ hcalls
      exact fun x name hx hshape htarget => hlow name (hunknown x name (.head he hx) hshape htarget)
    have hloop := hloops id .refl
    refine ⟨hwithin.1, ?_⟩
    rw [leftCalls] at hcalls
    rw [loopsForever] at hloop
    rw [children] at hchild
    cases hshape : g.shape id <;> rw [hshape] at hcalls hloop hchild
    case sequence es => exact led_of_leadingCalls hchild hcalls
    case range min max e delimiter =>
      refine ⟨led_of_leadingCalls hchild hcalls, ?_⟩
      rintro rfl
      cases delimiter with
      | none => exact .inl (by simpa [Eats] using hloop)
      | some d =>
        have hboth : f.matchesEmpty e = true → f.matchesEmpty d = false := by simpa using hloop
        cases hempty : f.matchesEmpty e with
        | false => exact .inl hempty
        | true => exact .inr ⟨d, rfl, hboth hempty⟩
    case zeroOrMore e =>
      exact ⟨hloop, hchild e (by simp [Shape.children, Shape.singleChild?]) low (fun _ h => h)
        (by simpa [Shape.children, Shape.singleChild?] using hcalls)⟩
    case oneOrMore e =>
      exact ⟨hloop, hchild e (by simp [Shape.children, Shape.singleChild?]) low (fun _ h => h)
        (by simpa [Shape.children, Shape.singleChild?] using hcalls)⟩
    case ruleRef name =>
      cases htarget : f.target? id with
      | none => exact hunknown id name .refl hshape htarget
      | some target => exact hcalls ⟨id, target⟩ (by simp [htarget]) name hshape
    all_goals
      intro e he
      refine hchild e he low (fun _ h => h) fun call hcall => ?_
      exact hcalls call (List.mem_flatMap.mpr ⟨e, he, hcall⟩)

/-! ## Ranks -/

/-- The rules that a rule calls without consuming anything. -/
def leftEdges (f : Facts) (g : Grammar) (index : Nat) : List Nat :=
  (((g.rules[index]?).map (f.leftCallsOfRule g)).getD []).map (·.target)

/-- The rules that a rule leads to without consuming anything. -/
def leftReach (f : Facts) (g : Grammar) (index : Nat) : Array Bool :=
  Reach.closure (f.leftEdges g) g.rules.length (f.leftEdges g index)

/-- The rank of a rule by its name: it leads to less than as many rules. A name that stands for no
rule is of no rank. -/
def leftRank (f : Facts) (g : Grammar) (name : String) : Nat :=
  match g.ruleIndex? name with
  | none => 0
  | some index =>
    ((Finset.range g.rules.length).filter fun i => (f.leftReach g index).getD i false).card + 1

theorem leftRank_pos {name : String} {index : Nat} (h : g.ruleIndex? name = some index) :
    0 < f.leftRank g name := by
  rw [leftRank, h]
  exact Nat.succ_pos _

/-- A call of a rule leads back to the rule. -/
def leadsBack (f : Facts) (g : Grammar) (rule : Nat) (call : Call) : Bool :=
  call.target == rule || (f.leftReach g call.target).getD rule false

/-- The calls that close a circle, in the order of the rules. -/
def recursiveCalls (f : Facts) (g : Grammar) : List Call :=
  (g.rules.map (f.leftCallsOfRule g)).zipIdx.flatMap fun p => p.1.filter (f.leadsBack g p.2)

/-- The references of these calls are reported. -/
theorem leftRecursion_eq (hf : f.Refers g) :
    f.leftRecursion g = (f.recursiveCalls g).filterMap fun call => g.reference? call.node := by
  have hedges (rule : Nat) : (((g.rules.map (f.leftCallsOfRule g)).toArray).getD rule []).map
      (·.target) = f.leftEdges g rule := by
    simp [leftEdges, Array.getD_eq_getD_getElem?]
  have hreach {index : Nat} (hlt : index < g.rules.length) :
      (((List.range g.rules.length).map fun rule =>
        Reach.closure (f.leftEdges g) g.rules.length (f.leftEdges g rule)).toArray).getD index #[] =
          f.leftReach g index := by
    simp [leftReach, Array.getD_eq_getD_getElem?, hlt]
  rw [leftRecursion]
  simp only [hedges]
  refine congrArg₂ List.filterMap (funext fun call => ?_)
    (List.flatMap_congr fun p hp => List.filter_congr fun call hcall => ?_)
  · rw [reference?, shape]
    cases g.node call.node with
    | mk shape location => cases shape <;> rfl
  · obtain ⟨r, -, hr⟩ := List.mem_map.mp (List.fst_mem_of_mem_zipIdx hp)
    rw [← hr] at hcall
    obtain ⟨name, -, hindex⟩ := hf _ _ (mem_leftCalls hcall).2
    rw [hreach (ruleIndex?_lt hindex), leadsBack]

/-- No rule that is called leads back to the rule that calls it. -/
theorem not_leftReach_of_call (h : f.leftRecursion g = []) (hf : f.Refers g) {index : Nat}
    {r : Rule} (hr : g.rules[index]? = some r) {call : Call}
    (hcall : call ∈ f.leftCallsOfRule g r) :
    call.target ≠ index ∧ ¬Reach.Marked (f.leftReach g call.target) index := by
  obtain ⟨name, hshape, -⟩ := hf _ _ (mem_leftCalls hcall).2
  rw [leftRecursion_eq hf, List.filterMap_eq_nil_iff] at h
  -- If the call closed a circle, it would be reported, as it is made by a reference.
  have hnot : f.leadsBack g index call ≠ true := by
    intro hback
    have hmem : call ∈ f.recursiveCalls g := by
      refine List.mem_flatMap.mpr ⟨(f.leftCallsOfRule g r, index), ?_, ?_⟩
      · rw [List.mem_zipIdx_iff_getElem?, List.getElem?_map, hr, Option.map_some]
      · exact List.mem_filter.mpr ⟨hcall, hback⟩
    have hnone := h call hmem
    rw [reference?, hshape] at hnone
    cases hnone
  rwa [leadsBack, Ne, Bool.or_eq_true, not_or, beq_iff_eq] at hnot

/-! ### Going round in circles -/

theorem mem_leftEdges {index target : Nat} (h : target ∈ f.leftEdges g index) :
    ∃ r, g.rules[index]? = some r ∧ ∃ call ∈ f.leftCallsOfRule g r, call.target = target := by
  rw [leftEdges] at h
  cases hr : g.rules[index]? with
  | none => simp [hr] at h
  | some r => exact ⟨r, rfl, by simpa [hr] using h⟩

theorem lt_of_mem_leftEdges (hf : f.Refers g) {index target : Nat}
    (h : target ∈ f.leftEdges g index) : target < g.rules.length := by
  obtain ⟨r, -, call, hcall, rfl⟩ := mem_leftEdges h
  obtain ⟨name, -, hindex⟩ := hf _ _ (mem_leftCalls hcall).2
  exact ruleIndex?_lt hindex

theorem leftReach_trans (hf : f.Refers g) {i j k : Nat} (hij : Reach.Marked (f.leftReach g i) j)
    (hjk : Reach.Marked (f.leftReach g j) k) : Reach.Marked (f.leftReach g i) k := by
  have hclosed (j k : Nat) (hj : Reach.Marked (f.leftReach g i) j) (hk : k ∈ f.leftEdges g j) :
      Reach.Marked (f.leftReach g i) k :=
    Reach.closed_closure _ j k hj hk (lt_of_mem_leftEdges hf hk)
  exact Reach.of_marked_closure (P := Reach.Marked (f.leftReach g i))
    (fun k hk => hclosed j k hij hk) (fun j hj k hk => hclosed j k hj hk) hjk

/-- No rule leads back to itself. -/
theorem not_leftReach_self (h : f.leftRecursion g = []) (hf : f.Refers g) (index : Nat) :
    ¬Reach.Marked (f.leftReach g index) index := by
  intro hmarked
  -- What a rule leads to is called by it, or is led to by a rule that is called by it.
  have hfirst : ∃ i ∈ f.leftEdges g index, index = i ∨ Reach.Marked (f.leftReach g i) index := by
    refine Reach.of_marked_closure (P := fun j =>
      ∃ i ∈ f.leftEdges g index, j = i ∨ Reach.Marked (f.leftReach g i) j) ?_ ?_ hmarked
    · exact fun i hi => ⟨i, hi, .inl rfl⟩
    · rintro j ⟨i, hi, hj⟩ k hk
      have hlt := lt_of_mem_leftEdges hf hk
      refine ⟨i, hi, .inr ?_⟩
      rcases hj with rfl | hj
      · exact Reach.marked_start hk hlt
      · exact Reach.closed_closure _ j k hj hk hlt
  obtain ⟨i, hi, hback⟩ := hfirst
  obtain ⟨r, hr, call, hcall, rfl⟩ := mem_leftEdges hi
  obtain ⟨hne, hnot⟩ := not_leftReach_of_call h hf hr hcall
  rcases hback with hback | hback
  · exact hne hback.symm
  · exact hnot hback

/-- Calls go down in rank. -/
theorem leftRank_lt (h : f.leftRecursion g = []) (hf : f.Refers g) {name name' : String}
    {index : Nat} {r : Rule} (hindex : g.ruleIndex? name = some index)
    (hr : g.rules[index]? = some r) {call : Call} (hcall : call ∈ f.leftCallsOfRule g r)
    (hindex' : g.ruleIndex? name' = some call.target) : f.leftRank g name' < f.leftRank g name := by
  have hlt := ruleIndex?_lt hindex'
  have hedge : call.target ∈ f.leftEdges g index := by
    rw [leftEdges, hr]
    exact List.mem_map_of_mem hcall
  have hreached : Reach.Marked (f.leftReach g index) call.target := Reach.marked_start hedge hlt
  rw [leftRank, leftRank, hindex, hindex']
  refine Nat.succ_lt_succ (Finset.card_lt_card ((Finset.ssubset_iff_of_subset ?_).mpr
    ⟨call.target, ?_, ?_⟩))
  · intro i hi
    obtain ⟨hilt, hi⟩ := Finset.mem_filter.mp hi
    exact Finset.mem_filter.mpr ⟨hilt, leftReach_trans hf hreached hi⟩
  · exact Finset.mem_filter.mpr ⟨Finset.mem_range.mpr hlt, hreached⟩
  · intro hmem
    exact not_leftReach_self h hf _ (Finset.mem_filter.mp hmem).2

/-! ## Progress -/

/-- What was found out about the rules says that a rule consumes something. -/
def RuleEats (c : Consumption.Context) (g : Grammar) (name : String) : Prop :=
  ∃ index, g.ruleIndex? name = some index ∧ 0 < (c.record index).min

variable {c : Consumption.Context}

/-- What is found to consume something is borne out by what is found below it. -/
theorem consuming_of_ofNode {eats : NodeId → Prop} {rule : String → Prop} {depth : Nat}
    {id : NodeId}
    (hchild : ∀ e ∈ c.grammar.children id, 0 < (Consumption.ofNode c depth e).min → eats e)
    (hrule : ∀ name target, c.grammar.shape id = .ruleRef name →
      c.targets[id]?.join = some target → 0 < (c.record target).min → rule name)
    (hregex : c.emptyRegex.getD id true = Consumption.regexMatchesEmpty (c.grammar.shape id))
    (h : 0 < (Consumption.ofNode c (depth + 1) id).min) :
    Consuming eats rule (c.grammar.shape id) ∧ c.grammar.shape id ≠ .choice [] := by
  rw [children] at hchild
  cases hshape : c.grammar.shape id <;> rw [hshape] at hchild
  case ruleRef name =>
    rw [Consumption.ofNode_ruleRef hshape] at h
    cases htarget : c.targets[id]?.join with
    | none =>
      rw [htarget] at h
      exact absurd h (Nat.lt_irrefl 0)
    | some target =>
      rw [htarget] at h
      exact ⟨hrule name target hshape htarget h, by rintro ⟨⟩⟩
  all_goals simp only [Consumption.ofNode, hshape] at h
  case named name e => exact ⟨hchild e (by simp [Shape.children, Shape.singleChild?]) h, by rintro ⟨⟩⟩
  case action e source => exact ⟨hchild e (by simp [Shape.children, Shape.singleChild?]) h, by rintro ⟨⟩⟩
  case labeled label e => exact ⟨hchild e (by simp [Shape.children, Shape.singleChild?]) h, by rintro ⟨⟩⟩
  case text e => exact ⟨hchild e (by simp [Shape.children, Shape.singleChild?]) h, by rintro ⟨⟩⟩
  case oneOrMore e => exact ⟨hchild e (by simp [Shape.children, Shape.singleChild?]) h, by rintro ⟨⟩⟩
  case choice es =>
    refine ⟨fun e he => hchild e he (Consumption.le_of_min_ofChoice h e he), ?_⟩
    rintro ⟨⟩
    exact absurd h (Nat.lt_irrefl 0)
  case sequence es =>
    obtain ⟨e, he, hpos⟩ := Consumption.exists_of_min_ofSequence h
    exact ⟨⟨e, he, hchild e he hpos⟩, by rintro ⟨⟩⟩
  case range min max e delimiter =>
    refine ⟨?_, by rintro ⟨⟩⟩
    rcases Consumption.pos_of_min_range h with ⟨hmin, hpos⟩ | ⟨hmin, hpos⟩
    · exact .inl ⟨hmin, hchild e (by simp [Shape.children]) hpos⟩
    · cases delimiter with
      | none => exact absurd hpos (Nat.lt_irrefl 0)
      | some d => exact .inr ⟨hmin, d, rfl, hchild d (by simp [Shape.children]) hpos⟩
  case literal value ignoreCase => exact ⟨h, by rintro ⟨⟩⟩
  case regex value ignoreCase multiLine raw =>
    refine ⟨?_, by rintro ⟨⟩⟩
    rw [hregex, hshape] at h
    by_contra hnot
    rw [if_pos (Bool.eq_true_of_not_eq_false hnot)] at h
    exact absurd h (Nat.lt_irrefl 0)
  case charClass parts inverted ignoreCase raw => exact ⟨trivial, by rintro ⟨⟩⟩
  case any => exact ⟨trivial, by rintro ⟨⟩⟩
  all_goals exact absurd h (Nat.lt_irrefl 0)

/-- What consumes something is borne out by what is below it. -/
theorem consuming_of_eats (hc : f.consumption = Consumption.nodeTable c) (hg : c.grammar = g)
    (htargets : c.targets = f.targets)
    (hregex : ∀ id < g.nodes.size,
      c.emptyRegex.getD id true = Consumption.regexMatchesEmpty (g.shape id)) (htrees : g.HasTrees)
    (hf : f.Refers g) {id : NodeId} (h : f.Eats id) :
    Consuming f.Eats (RuleEats c g) (g.shape id) := by
  subst hg
  rw [eats_iff] at h
  have howned := owned_of_consumptionOf hc htrees h
  rw [consumptionOf_of_owned hc htrees howned] at h
  refine (consuming_of_ofNode (fun e he hpos => ?_) (fun name target hshape htarget hpos => ?_)
    (hregex id (htrees.tree howned).lt_size) h).1
  · rw [eats_iff, consumptionOf_of_owned hc htrees (howned.child he)]
    exact hpos.trans_le (Consumption.min_ofNode_mono (.refl c) (Nat.le_succ _) e)
  · rw [htargets] at htarget
    obtain ⟨name', hshape', hindex⟩ := hf id target htarget
    rw [hshape] at hshape'
    cases hshape'
    exact ⟨target, hindex, hpos⟩

end Facts

variable {f : Facts} {g : Grammar}

theorem Consumption.emptyRegex_start {id : NodeId} (hlt : id < g.nodes.size) :
    (start g f).emptyRegex[id]? = some (regexMatchesEmpty (g.shape id)) := by
  simp [start, Grammar.shape, Grammar.node, Array.getD_eq_getD_getElem?, hlt]

theorem Consumption.emptyRegex_solve {id : NodeId} (hlt : id < g.nodes.size) :
    (solve g f).emptyRegex.getD id true = regexMatchesEmpty (g.shape id) := by
  rw [(rises_solve g f).emptyRegex, Array.getD_eq_getD_getElem?, emptyRegex_start hlt,
    Option.getD_some]

/-- A regular expression of a rule that does not match the empty text has a record that says so. -/
theorem Facts.min_of_regex (hf : f.consumption = Consumption.nodeTable (Consumption.solve g f))
    (htrees : g.HasTrees) {id : NodeId} (howned : g.Owned id) {value : String}
    {ignoreCase multiLine : Bool} {raw : String}
    (hshape : g.shape id = .regex value ignoreCase multiLine raw)
    (hempty : Consumption.regexMatchesEmpty (g.shape id) = false) :
    (f.consumptionOf id).min = 1 := by
  have hgrammar : (Consumption.solve g f).grammar = g := (Consumption.rises_solve g f).grammar
  have hmarked := Consumption.emptyRegex_solve (f := f) (htrees.tree howned).lt_size
  rw [hempty] at hmarked
  rw [← hgrammar] at howned htrees
  rw [Facts.consumptionOf_of_owned hf htrees howned, depthBound]
  simp only [Consumption.ofNode, hgrammar, hshape, hmarked]
  rfl

/-- A grammar in which no endless run was found makes progress. -/
theorem Facts.progress_analyze (hf : f.Links g) (htrees : g.HasTrees) (hunique : g.UniqueNames)
    (hleft : (f.analyze g).leftRecursion g = []) (hloops : (f.analyze g).endlessLoops g = []) :
    g.Progress (f.analyze g).Eats (RuleEats (Consumption.solve g f) g)
      ((f.analyze g).leftRank g) := by
  have hrises := Consumption.rises_solve g f
  have hgrammar : (Consumption.solve g f).grammar = g := hrises.grammar
  have htrees' : (Consumption.solve g f).grammar.HasTrees := by rwa [hgrammar]
  have hlinks : (f.analyze g).Links g := Accepted.Linked.analyze hf
  have hc : (f.analyze g).consumption = Consumption.nodeTable (Consumption.solve g f) := rfl
  refine ⟨fun id hid => ⟨?_, ?_⟩, ?_, ?_⟩
  · have howned := owned_of_consumptionOf hc htrees' (eats_iff.mp hid)
    rwa [hgrammar] at howned
  · exact consuming_of_eats hc hgrammar hrises.targets
      (fun id hlt => Consumption.emptyRegex_solve hlt) htrees hlinks.refers hid
  · rintro r hr ⟨index, hindex, hpos⟩
    obtain ⟨i, hi⟩ := List.mem_iff_getElem?.mp hr
    rw [hunique.ruleIndex?_eq hi] at hindex
    cases hindex
    have howned : (Consumption.solve g f).grammar.Owned r.expression := by
      rw [hgrammar]
      exact ⟨r, hr, .refl⟩
    rw [eats_iff, consumptionOf_of_owned hc htrees' howned]
    exact hpos.trans_le (Consumption.rising_solve g f index r (by rwa [hgrammar]))
  · intro r hr
    obtain ⟨i, hi⟩ := List.mem_iff_getElem?.mp hr
    have hindex := hunique.ruleIndex?_eq hi
    have htree := htrees r hr
    refine guarded_of_leftCalls htree.within (fun x hx => ?_) ?_ ?_
    · by_contra hloop
      have hreported : x ∈ (f.analyze g).endlessLoops g := by
        refine List.mem_flatMap.mpr ⟨i, List.mem_range.mpr (ruleIndex?_lt hindex), ?_⟩
        exact List.mem_filter.mpr ⟨(mem_ruleNodes hi htree).mpr hx, by simpa using hloop⟩
      rw [hloops] at hreported
      cases hreported
    · intro x name hx hshape htarget
      rw [hlinks.target?_eq hi htree hx hshape] at htarget
      rw [leftRank, htarget]
      exact leftRank_pos hindex
    · intro call hcall name hshape
      obtain ⟨hbelow, htarget⟩ := mem_leftCalls hcall
      rw [hlinks.target?_eq hi htree hbelow hshape] at htarget
      exact leftRank_lt hleft hlinks.refers hindex hi hcall htarget

/-- A grammar makes progress when it passes the checks. -/
theorem Accepted.progress {p c x s : Session} (h : Accepted g p c x s) (htrees : g.HasTrees) :
    ∃ eats rule rank, c.grammar.Progress eats rule rank := by
  have hp : Accepted.Linked p := by
    rw [Accepted.Linked, h.grammar]
    exact h.linked
  have hleft := h.noLeftRecursion
  have hloops := h.noEndlessLoops
  have hunique := Session.uniqueNames_dropUnusedRules hp.refers
  have htrees' : p.dropUnusedRules.grammar.HasTrees := by
    rw [Session.dropUnusedRules_grammar, h.grammar]
    exact htrees.removeRules _
  rw [h.checkedFacts, h.checkedGrammar] at hleft hloops
  rw [h.checkedGrammar]
  exact ⟨_, _, _, Facts.progress_analyze hp.dropUnusedRules htrees' hunique hleft hloops⟩

end PegMachine
