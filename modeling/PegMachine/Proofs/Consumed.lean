import PegMachine.Proofs.Bounds
import PegMachine.Proofs.Noting
import PegMachine.Proofs.Termination
import PegMachine.Proofs.Widening

/-!
# Matches keep to their records

Whatever is matched in a parse, a node or a rule, takes a number of characters that its record
allows. The records of rules say so for what rules may match, as the sweeps ended with records that
allow what the rules are found to consume, and from them it follows for all nodes.
-/

namespace PegMachine

namespace Consumption

variable {c c' : Consumption} {k : Nat}

theorem Admits.widen (h : c.Admits k) (hmin : c'.min ≤ c.min) (hmax : c.max.le c'.max = true) :
    c'.Admits k := by
  refine ⟨hmin.trans h.min_le, ?_⟩
  rw [MaxCount.finite_le_iff]
  intro n hn
  rw [hn] at hmax
  cases hc : c.max with
  | infinite =>
    rw [hc] at hmax
    cases hmax
  | finite m =>
    rw [hc] at hmax
    exact (MaxCount.finite_le_iff.mp h.le_max m hc).trans (of_decide_eq_true hmax)

end Consumption

/-- The record of what can be matched, if there is one. -/
def Facts.recordOf? (f : Facts) : Subject → Option Consumption
  | .node id => f.consumption[id]?.join
  | .rule index => f.record? index

/-- A match takes a number of characters that its record allows. -/
def Matched.Allowed (input : Input) (f : Facts) (m : Matched) : Prop :=
  ∃ record text, f.recordOf? m.subject = some record ∧
    input.Spans m.start text m.stop ∧ record.Admits text.length

open Peg Language Consumption

/-! ## Languages of records -/

/-- What rules may match, if their records allow it. -/
def allowed (input : Input) (g : Grammar) (f : Facts) (index : Nat) : Language := fun a b =>
  index < g.rules.length ∧ taking input ((solve g f).record index).Admits a b

section

variable {g : Grammar} {f : Facts} {input : Input} (htrees : g.HasTrees) (hplain : Plain input)
  (hcount : ∀ id, Countable (g.shape id))
  (hregex : RegexesEat input g fun id => g.Owned id ∧ regexMatchesEmpty (g.shape id) = false)
  (htargets : ∀ id name, g.Owned id → g.shape id = .ruleRef name →
    f.target? id = g.ruleIndex? name)

include htrees hplain hcount hregex htargets

/-- A node of a rule takes what is found for it. -/
theorem takes_found {id : NodeId} (howned : g.Owned id) (height : Nat) :
    (ofNode input g (allowed input g f) height id).Takes input
      (Consumption.ofNode (solve g f) g.depthBound id).Admits := by
  have hrises := rises_solve g f
  have hgrammar : (solve g f).grammar = g := hrises.grammar
  have htargets' : (solve g f).targets = f.targets := hrises.targets
  have hrule (index : Nat) :
      (allowed input g f index).Takes input ((solve g f).record index).Admits :=
    fun a b ha hab => hab.2 ha
  have hregex' : RegexesEat input (solve g f).grammar fun id =>
      (solve g f).grammar.Owned id ∧ (solve g f).emptyRegex.getD id true = false := by
    rw [hgrammar]
    rintro id value ignoreCase multiLine raw ⟨hid, hempty⟩ hshape
    rw [emptyRegex_solve (htrees.tree hid).lt_size] at hempty
    exact hregex id value ignoreCase multiLine raw ⟨hid, hempty⟩ hshape
  have hwithin : (solve g f).grammar.Within g.depthBound id := by
    rw [hgrammar]
    exact (htrees.tree howned).within
  have htakes := takes_admitted hplain (by rwa [hgrammar]) hregex' (by rwa [hgrammar, htargets'])
    hrule hwithin (by rwa [hgrammar]) height
  rwa [hgrammar] at htakes

/-- What rules may match is closed under evaluating their expressions. -/
theorem allowed_of_ofRule (index a b : Nat)
    (hab : Language.ofRule input g (allowed input g f) index a b) :
    allowed input g f index a b := by
  obtain ⟨r, hr, hab⟩ := hab
  have howned : g.Owned r.expression := ⟨r, List.mem_of_getElem? hr, .refl⟩
  have hgrammar : (solve g f).grammar = g := (rises_solve g f).grammar
  refine ⟨(List.getElem?_eq_some_iff.mp hr).1, fun ha => ?_⟩
  obtain ⟨text, hspans, hadmits⟩ :=
    takes_found htrees hplain hcount hregex htargets howned g.depthBound a b ha hab
  have hfound : Consumption.ofRule (solve g f) r =
      Consumption.ofNode (solve g f) g.depthBound r.expression := by
    rw [Consumption.ofRule, hgrammar]
  have hmin := rising_solve g f index r (by rwa [hgrammar])
  have hmax := max_ofRule_solve g f hr
  rw [hfound] at hmin hmax
  exact ⟨text, hspans, hadmits.widen hmin hmax⟩

end

/-! ## Records in the end -/

section

variable {g : Grammar} {f : Facts}

/-- Every node that belongs to a rule has the record that is found for it. -/
theorem recordOf?_node (hf : f.consumption = nodeTable (solve g f)) (htrees : g.HasTrees)
    {id : NodeId} (howned : g.Owned id) :
    f.recordOf? (.node id) = some (Consumption.ofNode (solve g f) g.depthBound id) := by
  have hgrammar : (solve g f).grammar = g := (rises_solve g f).grammar
  have hrecord := getElem?_nodeTable (c := solve g f) (by rwa [hgrammar]) (by rwa [hgrammar])
  rw [Facts.recordOf?, hf, hrecord, hgrammar]
  rfl

/-- All that is matched in a parse takes numbers of characters that records allow, when the records
are those that the sweeps end with. -/
theorem matched_allowed {σ : Type} {E : Setting σ} (htrees : g.HasTrees)
    (hplain : Plain E.input) (hcount : ∀ id, Countable (g.shape id))
    (hregex : RegexesEat E.input g fun id =>
      g.Owned id ∧ regexMatchesEmpty (g.shape id) = false)
    (htargets : ∀ id name, g.Owned id → g.shape id = .ruleRef name →
      f.target? id = g.ruleIndex? name)
    (hf : f.consumption = nodeTable (solve g f))
    (hrecords : ∀ index < g.rules.length,
      f.record? index = some ((solve g f).record index)) (fuel index : Nat) :
    Matches (machine E).watched
      (watching (machine E) E.input (Remembers (allowed E.input g f)) (Matched.Allowed E.input f))
      (ruleNoting E g fuel index) (allowed E.input g f index) := by
  refine ruleNoting_matches ?_ ?_ ?_
    (allowed_of_ofRule htrees hplain hcount hregex htargets) fuel index
  · intro id depth a b howned ha hab
    obtain ⟨text, hspans, hadmits⟩ :=
      takes_found htrees hplain hcount hregex htargets howned depth a b ha hab
    exact ⟨_, text, recordOf?_node hf htrees howned, hspans, hadmits⟩
  · rintro index a b ha ⟨hlt, hab⟩
    obtain ⟨text, hspans, hadmits⟩ := hab ha
    exact ⟨_, text, hrecords index hlt, hspans, hadmits⟩
  · rintro index a b ha ⟨-, hab⟩
    obtain ⟨text, hspans, -⟩ := hab ha
    exact hspans.rest?_stop

end

/-- What is said of all shapes of a grammar, and of references and labels anyway, is said of the shapes
that the grammar ends with. -/
theorem Accepted.shapes {g : Grammar} {p c x s : Session} (h : Accepted g p c x s)
    {P : Shape → Prop} (href : ∀ name, P (.ruleRef name)) (hlabeled : ∀ label e, P (.labeled label e))
    (hg : ∀ id, P (g.shape id)) (id : NodeId) : P (s.grammar.shape id) := by
  rw [h.finalGrammar]
  refine Session.shapes_elideProxies href hlabeled (fun id => ?_) id
  rw [h.transformedGrammar, h.checkedGrammar, Session.dropUnusedRules_grammar, h.grammar]
  exact hg id

/-- The shapes that a grammar ends with are as countable as those it was given with. -/
theorem Accepted.countable {g : Grammar} {p c x s : Session} (h : Accepted g p c x s)
    (hcount : ∀ id, Countable (g.shape id)) (id : NodeId) : Countable (s.grammar.shape id) :=
  h.shapes (fun _ => trivial) (fun _ _ => trivial) hcount id

/-- A reference of a rule is resolved to the rule that it names. -/
theorem Accepted.target?_eq {g : Grammar} {p c x s : Session} (h : Accepted g p c x s)
    (htrees : s.grammar.HasTrees) (id : NodeId) (name : String) (howned : s.grammar.Owned id)
    (hshape : s.grammar.shape id = .ruleRef name) :
    s.facts.target? id = s.grammar.ruleIndex? name := by
  have hlinks : x.elideProxies.facts.Links s.grammar := by
    rw [h.finalGrammar]
    exact Accepted.linked_elideProxies x
  obtain ⟨r, hr, hbelow⟩ := howned
  obtain ⟨index, hindex⟩ := List.mem_iff_getElem?.mp hr
  rw [Facts.target?, h.finalTargets]
  exact hlinks.target?_eq hindex (htrees r hr) hbelow hshape

/-- A watched parse from a rule of a grammar on ends with an outcome and a state, and found some
matches on the way. -/
def Parser.Finds {σ : Type} (p : Parser) (g : Grammar) (handler : Handler σ) (hs : σ)
    (input : Input) (index : Nat) (o : Outcome Slot) (t : State σ) (found : List Matched) : Prop :=
  let E := p.setting handler input
  ∃ n, ruleNoting E g n index (E.initial p.statistics hs, []) = some (o, t, found)

/-- Consumption bounds are sound for every parse: take a parser of a program that is generated for
a grammar that was compiled without errors, with memoization switched on or off in it. A parse ends
in the same way when it is watched, and whatever is matched on the way, a node of the grammar or a
rule, stands between its offsets as a text with a number of characters that the record of the node
or rule allows. This takes an input with fewer than 2 ^ 32 characters, a grammar in which no range
is empty, lower case that maps each character of the input and of the literals that ignore case to
one character, and regular expressions that never match the empty text if they are known to consume
a character. -/
theorem compile_allows {g : Grammar} (htrees : g.HasTrees) {options : Options} {listeners : Nat}
    {compiled : Compiled} {s : Session} (h : compile g options listeners = (.ok compiled, s))
    {P : Program} (hP : s.program = some P) (hfit : P.Addressable) {switch : Bool}
    {flags : Nat → Bool} {p : Parser} (hp : p.program = P.withMemo switch flags) (hsound : p.Sound)
    {σ : Type} (handler : Handler σ) (hs : σ) {input : Input} (hplain : Plain input)
    (hcount : ∀ id, Countable (g.shape id))
    (hregex : RegexesEat input s.grammar fun id => (s.facts.consumptionOf id).min = 1)
    (index : Nat) (o : Outcome Slot) (t : State σ) :
    ((∃ n, p.runRule (p.setting handler input) n index
        ((p.setting handler input).initial p.statistics hs) = some (o, t)) ↔
      ∃ found, p.Finds s.grammar handler hs input index o t found) ∧
    ∀ found, p.Finds s.grammar handler hs input index o t found →
      ∀ m ∈ found, m.Allowed input s.facts := by
  obtain ⟨_, _, _, haccepted⟩ := compile_eq_ok h
  obtain ⟨c, trace, hg, hprogram⟩ := haccepted.program
  obtain ⟨eats, rule, rank, hprogress⟩ := haccepted.finalProgress htrees
  have hcarries : P.Carries c := by
    rw [hP] at hprogram
    cases hprogram
    exact Generated.program_carries hg trace
  have hruns : p.Runs s.facts s.grammar c := ⟨hsound, hp ▸ hcarries.withMemo, hp ▸ hfit.withMemo⟩
  have hfinal := hprogress.hasTrees
  have hregex' : RegexesEat input s.grammar fun id =>
      s.grammar.Owned id ∧ regexMatchesEmpty (s.grammar.shape id) = false := by
    rintro id value ignoreCase multiLine raw ⟨howned, hempty⟩ hshape
    exact hregex id value ignoreCase multiLine raw
      (Facts.min_of_regex haccepted.finalConsumption hfinal howned hshape hempty) hshape
  constructor
  · let E := p.setting handler input
    rw [hruns.runRule_iff hg haccepted.resolved (E := E) rfl, ruleNoting_iff []]
    exact exists_comm
  · rintro found ⟨n, hrun⟩
    have hmatches := matched_allowed (E := p.setting handler input) hfinal hplain
      (haccepted.countable hcount) hregex' (haccepted.target?_eq hfinal)
      haccepted.finalConsumption haccepted.finalRecords n index
    have hstart : ∃ cs, input.rest? 0 = some cs := ⟨input.chars, input.rest?_zero⟩
    have hends := hmatches ((p.setting handler input).initial p.statistics hs, [])
      ⟨remembers_initial _ _ _, hstart, nofun⟩
    cases o with
    | ok v => exact (hends.ok v _ hrun).1.2.2
    | error e => exact hends.error e _ hrun

/-- The whole of a number in parentheses is matched by a rule whose record allows it. -/
theorem parenthesized_allows :
    ∃ found : List Matched, ⟨.rule 0, 0, 3⟩ ∈ found ∧
      ∀ m ∈ found, m.Allowed (.ofString "(7)") (compile parenthesized {} 0).2.facts := by
  let p := Parser.interpreted (parenthesizedProgram.withMemo true fun _ => true)
  have hends : ((p.runRule (p.setting (.none : Handler Unit) (.ofString "(7)")) 60 0
      ((p.setting .none (.ofString "(7)")).initial p.statistics ())).any
        fun r => r.1.toOption.any (!·.isFailed) && r.2.pos == 3) = true := by decide +kernel
  obtain ⟨⟨o, t⟩, hrun, hmatched⟩ := (Option.any_eq_true _ _).mp hends
  obtain ⟨compiled, hcompiled, hprogram, hgrammar⟩ := parenthesized_compiled
  have hlower : ((Input.ofString "(7)").chars.all
      fun c => (Unicode.lowerChar c).length == 1) = true := by decide +kernel
  have hplain : Plain (.ofString "(7)") :=
    ⟨by decide, fun c hc => beq_iff_eq.mp (List.all_eq_true.mp hlower c hc)⟩
  have hcount : ∀ id, Countable (parenthesized.shape id) :=
    Grammar.forall_shape trivial (by decide)
  have hregex := parenthesized_regexesEat fun id =>
    ((compile parenthesized {} 0).2.facts.consumptionOf id).min = 1
  have hp : p.program = parenthesizedProgram.withMemo true fun _ => true := rfl
  obtain ⟨hsame, hallowed⟩ := compile_allows parenthesized_hasTrees hcompiled hprogram
    parenthesizedProgram_addressable hp (Parser.sound_interpreted _) .none () hplain hcount
    (by rwa [hgrammar]) 0 o t
  obtain ⟨found, n, hfound⟩ := hsame.mp ⟨60, hrun⟩
  refine ⟨found, ?_, hallowed found ⟨n, hfound⟩⟩
  rw [Bool.and_eq_true, beq_iff_eq] at hmatched
  obtain ⟨hv, hstop⟩ := hmatched
  cases o with
  | error e => cases hv
  | ok v =>
    have hmem := mem_of_ruleNoting hfound (by simpa [Except.toOption] using hv)
    rwa [hstop] at hmem

end PegMachine
