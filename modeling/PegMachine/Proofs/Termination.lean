import Mathlib.Tactic.IntervalCases
import PegMachine.Proofs.Halting
import PegMachine.Proofs.Progress
import PegMachine.Proofs.Proxies
import PegMachine.Proofs.Transparency

/-!
# Parsers of accepted grammars end

A grammar that passes the checks makes progress, and keeps it when proxies are taken out. So every
rule halts, by induction on how much of the input is left and on the rank of the rule, and a parser
of an accepted grammar ends on every input, from every rule, whatever the actions answer.
-/

namespace PegMachine

open Filter Grammar

variable {σ : Type}

namespace Peg

open Peg.Language

variable {E : Setting σ} {g : Grammar} {eats : NodeId → Prop} {rule : String → Prop}
  {rank : String → Nat} {input : Input}

/-! ## What rules consume -/

/-- What rules may match, if those that are marked consume something. -/
def consumed (input : Input) (g : Grammar) (rule : String → Prop) (index : Nat) : Language :=
  taking input fun k => ∀ r, g.rules[index]? = some r → Enough (rule r.name) k

theorem takes_consumed {name : String} {index : Nat} (h : g.ruleIndex? name = some index) :
    (consumed input g rule index).Takes input (Enough (rule name)) := by
  obtain ⟨r, hr, rfl⟩ := name_of_ruleIndex? h
  exact takes_taking.weaken fun k henough => henough r hr

theorem takes_of_progress (h : g.Progress eats rule rank) (hregex : RegexesEat input g eats)
    (depth : Nat) (id : NodeId) :
    (ofNode input g (consumed input g rule) depth id).Takes input (Enough (eats id)) :=
  takes_ofNode (fun id hid => (h.node id hid).2) hregex (fun _ _ => takes_consumed) depth id

/-- What rules may match is closed under evaluating their expressions. -/
theorem consumed_of_ofRule (h : g.Progress eats rule rank) (hregex : RegexesEat input g eats)
    (index a b : Nat) (hab : ofRule input g (consumed input g rule) index a b) :
    consumed input g rule index a b := by
  obtain ⟨r, hr, hab⟩ := hab
  intro ha
  obtain ⟨text, hspans, henough⟩ := takes_of_progress h hregex _ _ a b ha hab
  refine ⟨text, hspans, fun r' hr' hmarked => henough ?_⟩
  obtain rfl : r = r' := Option.some.inj (hr.symm.trans hr')
  exact h.root r (List.mem_of_getElem? hr) hmarked

/-! ## Rules -/

/-- Fuel that is spent before a run begins does not matter. -/
theorem Halts.of_succ {S α : Type} {x : Nat → Run S α} {s : S}
    (h : Halts (fun n => x (n + 1)) s) : Halts x s := by
  obtain ⟨r, hr⟩ := h
  exact ⟨r, eventually_of_succ hr⟩

/-- An invocation halts if its body does, once the rule is entered. -/
theorem Halts.invocation {bodies : Nat → Run (State σ) Slot} {s : State σ} {index : Nat}
    (h : Halts bodies { s.entered E index with currentRule := some index }) :
    Halts (fun n => State.rule E index (bodies n)) s := by
  cases hmemo : (s.entered E index).memoized? E index with
  | some hit =>
    obtain ⟨nextPos, result⟩ := hit
    exact ⟨_, .of_forall fun _ => State.rule_eq_some.mpr (.inl ⟨nextPos, result, hmemo, rfl⟩)⟩
  | none =>
    obtain ⟨⟨o, t⟩, hbody⟩ := h
    refine ⟨(o, State.left E s index o t), ?_⟩
    filter_upwards [hbody] with n hn
    exact State.rule_eq_some.mpr (.inr ⟨hmemo, o, t, hn, rfl⟩)

/-- The body of a rule halts if its expression is guarded and what may be begun in it halts. -/
theorem halts_body {S : Type} {O : Ops S} {I : Invariant S} (hO : O.Keeps I)
    (hI : I.Spreads input) {invoke : Nat → Nat → Run S Slot} {n index : Nat} {r : Rule}
    (h : g.Progress eats rule rank) (hregex : RegexesEat input g eats)
    (hinvoke : ∀ m i, Matches O I (invoke m i) (consumed input g rule i))
    (hr : g.rules[index]? = some r)
    (hsettled : Settled O I input g invoke n fun name => rank name < rank r.name) :
    HaltsIn O I input n fun m => body O input g (invoke m) m index := by
  have hguarded := h.guarded r (List.mem_of_getElem? hr)
  have heval := HaltsIn.eval hO hI hinvoke (takes_of_progress h hregex) hguarded hsettled [] none
  simpa only [body, hr] using heval

/-- Every rule halts, by induction on what is left of the input and on the rank of the rule. -/
theorem haltsIn_machineRule (h : g.Progress eats rule rank) (hregex : RegexesEat E.input g eats)
    (n index : Nat) :
    HaltsIn (machine E) (.of (Remembers (consumed E.input g rule))) E.input n
      fun m => machineRule E g m index := by
  have hinvoke (m i : Nat) := machineRule_matches (E := E) (consumed_of_ofRule h hregex) m i
  -- Entering a rule does not move, and one round of fuel goes into the invocation.
  have hinvoked {n index : Nat}
      (hbody : HaltsIn (machine E) (.of (Remembers (consumed E.input g rule))) E.input n
        fun m => body (machine E) E.input g (machineRule E g m) m index) :
      HaltsIn (machine E) (.of (Remembers (consumed E.input g rule))) E.input n
        fun m => machineRule E g m index := by
    intro s hs hroom
    obtain ⟨hmemo, hpos⟩ := memo_entered (E := E) s index
    refine .of_succ (.invocation (hbody _ (Remembers.congr hs hmemo) ?_))
    rw [machine_pos] at hroom ⊢
    exact hpos ▸ hroom
  induction n using Nat.strong_induction_on generalizing index with
  | _ n ihahead =>
    cases hr : g.rules[index]? with
    | none =>
      refine hinvoked fun s _ _ => ?_
      simpa only [body, hr] using Halts.pure Slot.failed
    | some r =>
      induction hrank : rank r.name using Nat.strong_induction_on generalizing index r with
      | _ k ihlow =>
        refine hinvoked (halts_body machine_keeps (Invariant.spreads_of _ _) h hregex hinvoke hr ⟨?_, ?_⟩)
        · intro name i hi hlow
          obtain ⟨r', hr', rfl⟩ := name_of_ruleIndex? hi
          exact ihlow _ (hrank ▸ hlow) i r' hr' rfl
        · exact fun i n' hlt => ihahead n' hlt i

/-- A parse ends, whatever rule it starts from. -/
theorem exists_machineRule (h : g.Progress eats rule rank) (hregex : RegexesEat E.input g eats)
    (index : Nat) (statistics : Statistics) (hs : σ) :
    ∃ n r, machineRule E g n index (E.initial statistics hs) = some r := by
  have hroom : Room E.input E.input.size 0 :=
    ⟨⟨E.input.chars, E.input.rest?_zero⟩, Nat.sub_le _ _⟩
  obtain ⟨r, hr⟩ := haltsIn_machineRule h hregex E.input.size index _
    (remembers_initial E statistics hs) hroom
  obtain ⟨n, hn⟩ := hr.exists
  exact ⟨n, r, hn⟩

end Peg

open Peg

/-! ## Parsers -/

/-- What a grammar ends as makes progress, and what is known of it says so. -/
theorem Accepted.finalProgress {g : Grammar} {p c x s : Session} (h : Accepted g p c x s)
    (htrees : g.HasTrees) :
    ∃ eats rule rank, s.grammar.Progress eats rule rank := by
  obtain ⟨eats, rule, rank, hprogress⟩ := h.progress htrees
  rw [← h.transformedGrammar] at hprogress
  obtain ⟨eats', hprogress'⟩ := Session.progress_elideProxies hprogress
  rw [h.finalGrammar]
  exact ⟨eats', rule, rank, hprogress'⟩

/-- A regular expression that has to consume something has a record that says so. -/
theorem Accepted.regex_record {g : Grammar} {p c x s : Session} (h : Accepted g p c x s)
    {eats : NodeId → Prop} {rule : String → Prop} {rank : String → Nat}
    (hprogress : s.grammar.Progress eats rule rank) {id : NodeId} (hid : eats id) {value : String}
    {ignoreCase multiLine : Bool} {raw : String}
    (hshape : s.grammar.shape id = .regex value ignoreCase multiLine raw) :
    (s.facts.consumptionOf id).min = 1 := by
  obtain ⟨howned, hmarked⟩ := hprogress.node id hid
  rw [hshape] at hmarked
  refine Facts.min_of_regex h.finalConsumption hprogress.hasTrees howned hshape ?_
  rw [hshape]
  exact hmarked

/-- Every parser of an accepted grammar ends: take the program that is generated for a grammar that
was compiled without errors, switch memoization on or off in it, and interpret its machine code or
run it as routines. Then a parse ends for every input, every start rule and every handler, if those
regular expressions never match the empty text that are known to consume a character. A grammar is
given as trees here, as any walk over other grammars does not end in the first place. -/
theorem compile_terminates {g : Grammar} (htrees : g.HasTrees) {options : Options} {listeners : Nat}
    {compiled : Compiled} {s : Session} (h : compile g options listeners = (.ok compiled, s))
    {P : Program} (hP : s.program = some P) (hfit : P.Addressable) {switch : Bool}
    {flags : Nat → Bool} {p : Parser} (hp : p.program = P.withMemo switch flags) (hsound : p.Sound)
    (handler : Handler σ) (hs : σ) {input : Input}
    (hregex : RegexesEat input s.grammar fun id => (s.facts.consumptionOf id).min = 1)
    (startRule : Option String) :
    ∃ n report, p.run n handler hs input startRule = some report := by
  obtain ⟨_, _, _, haccepted⟩ := compile_eq_ok h
  obtain ⟨c, trace, hg, hprogram⟩ := haccepted.program
  obtain ⟨eats, rule, rank, hprogress⟩ := haccepted.finalProgress htrees
  have hcarries : P.Carries c := by
    rw [hP] at hprogram
    cases hprogram
    exact Generated.program_carries hg trace
  have hruns : p.Runs s.facts s.grammar c := ⟨hsound, hp ▸ hcarries.withMemo, hp ▸ hfit.withMemo⟩
  have hregexes : RegexesEat input s.grammar eats := by
    intro id value ignoreCase multiLine raw hid hshape
    exact hregex id value ignoreCase multiLine raw (haccepted.regex_record hprogress hid hshape)
      hshape
  unfold Parser.run
  cases p.program.startIndex startRule with
  | error e => exact ⟨0, _, rfl⟩
  | ok i =>
    let E := p.setting handler input
    obtain ⟨n, r, hrun⟩ := exists_machineRule (E := E) hprogress hregexes i p.statistics hs
    obtain ⟨m, hm⟩ := (hruns.runRule_iff hg haccepted.resolved (E := E) rfl).mpr ⟨n, hrun⟩
    exact ⟨m, _, Option.map_eq_some_iff.mpr ⟨r, hm, rfl⟩⟩

/-- A grammar of digits, perhaps in parentheses. -/
def parenthesized : Grammar where
  rules := [{ name := "start", expression := 6 }]
  nodes := #[⟨.literal "(" false, none⟩, ⟨.ruleRef "start", none⟩, ⟨.literal ")" false, none⟩,
    ⟨.sequence [0, 1, 2], none⟩, ⟨.regex "[0-9]" false false "/[0-9]/", none⟩, ⟨.oneOrMore 4, none⟩,
    ⟨.choice [3, 5], none⟩]

/-- The program of that grammar. -/
def parenthesizedProgram : Program where
  rules := #[⟨"start", false,
    #[1, 16, 0, 2, 2, 20, 0, 21, 1, 11, 27, 3, 25, 0, 11, 18, 4, 16, 2, 2, 2, 20, 2, 21, 3, 11, 3,
      4, 7, 3, 5, 4, 3, 3, 28, 4, 2, 3, 28, 2, 3, 28, 10, 28, 0, 2, 29, 18, 4, 2, 2, 35, 4, 21, 5,
      11, 12, 3, 14, 9, 6, 18, 4, 2, 2, 35, 4, 21, 5, 2, 2, 2, 28]⟩]
  constants := #[.string "(", .expected (.literal "("), .string ")", .expected (.literal ")"),
    .pattern "[0-9]" false false, .expected ⟨.regex, some "/[0-9]/", "/[0-9]/"⟩]
  actions := #[]
  starters := [0]
  defaultStart := 0
  memoize := false
  trace := false
  statistics := false

/-- A digit is never empty in that input. -/
theorem parenthesized_regexesEat (eats : NodeId → Prop) :
    RegexesEat (.ofString "(7)") parenthesized eats := by
  intro id value ignoreCase multiLine raw _ hshape
  have hlt : id < 7 := by
    by_contra hge
    rw [Grammar.shape, Grammar.node, Array.getD_eq_getD_getElem?,
      Array.getElem?_eq_none (Nat.le_of_not_lt hge)] at hshape
    cases hshape
  have hdigit : ∀ a < 4,
      taken? (.ofString "(7)") a (.regex "[0-9]" false false "/[0-9]/") ≠ some [] := by
    decide +kernel
  obtain rfl : id = 4 := by
    interval_cases id <;> first | rfl | cases hshape
  rintro a cs text ha htaken rfl
  exact hdigit a (Nat.lt_succ_of_le (Input.le_size ha)) htaken

theorem parenthesized_hasTrees : parenthesized.HasTrees := by
  have hordered : parenthesized.Ordered := by
    unfold Grammar.Ordered
    decide
  have hroots : ∀ r ∈ parenthesized.rules, r.expression < parenthesized.nodes.size := by decide
  exact fun r hr => hordered.tree (hroots r hr)

/-- The grammar is accepted as it is. -/
theorem parenthesized_compiled : ∃ compiled,
    compile parenthesized {} 0 = (.ok compiled, (compile parenthesized {} 0).2) ∧
      (compile parenthesized {} 0).2.program = some parenthesizedProgram ∧
      (compile parenthesized {} 0).2.grammar = parenthesized := by
  have hends : (compile parenthesized {} 0).1.isOk = true ∧
      (compile parenthesized {} 0).2.program = some parenthesizedProgram ∧
      (compile parenthesized {} 0).2.grammar = parenthesized := by decide +kernel
  obtain ⟨compiled, hcompiled⟩ := exists_compiled hends.1
  exact ⟨compiled, hcompiled, hends.2⟩

theorem parenthesizedProgram_addressable : parenthesizedProgram.Addressable := by
  constructor <;> decide

/-- A parse with that grammar ends. -/
theorem parenthesized_terminates :
    ∃ n report, (Parser.interpreted (parenthesizedProgram.withMemo true fun _ => true)).run n
      .none () (.ofString "(7)") none = some report := by
  obtain ⟨compiled, hcompiled, hprogram, hgrammar⟩ := parenthesized_compiled
  refine compile_terminates parenthesized_hasTrees hcompiled hprogram
    parenthesizedProgram_addressable rfl (Parser.sound_interpreted _) .none () ?_ none
  rw [hgrammar]
  exact parenthesized_regexesEat _

end PegMachine
