import Mathlib
import PegMachine.Proofs.Counterparts
import PegMachine.Proofs.Resolved

/-!
# Rules that parses do not miss

A parse does not notice that unused rules are dropped and that proxies are taken out. Each small
change to the grammar on the way leaves every rule with a counterpart: references that are
redirected go to the rule that the proxy would have gone to, labels on roots bind nothing, and rules
are removed that nothing refers to. So whatever a parse starts from, it comes to the same value or
error at the same offset with the same reports and the same calls of actions.
-/

namespace PegMachine

open Filter

namespace Grammar

variable {g g' : Grammar} {index : Nat} {label : String}

/-! ## What small changes leave as it is -/

/-- Proxies are still there once references to them are redirected. -/
theorem stems_redirect {index : Nat} {root : NodeId} {source target : String}
    (h : g.Stems index root) : (g.redirect source target).Stems index root := by
  obtain ⟨r, hr, hroot⟩ := h
  refine ⟨r, hr, hroot.imp_right ?_⟩
  rintro ⟨label, hshape⟩
  exact ⟨label, by rw [shape_redirect, hshape]⟩

/-- The roots that a label may be put on in their place are below no other node. -/
def PicksOnTop (g : Grammar) : Prop :=
  ∀ r ∈ g.rules, ∀ e, g.shape r.expression = .labeled none e → ∀ id, r.expression ∉ g.children id

/-- So it is where nothing is above a root, also once some rules were removed. -/
theorem picksOnTop_removeRules (h : g.RootsOnTop) (indices : List Nat) :
    (g.removeRules indices).PicksOnTop := fun r hr _ _ =>
  h r (mem_of_mem_removeRules hr)

theorem PicksOnTop.redirect (h : g.PicksOnTop) (source target : String) :
    (g.redirect source target).PicksOnTop := by
  intro r hr e hshape id hmem
  rw [children_redirect] at hmem
  rw [shape_redirect] at hshape
  split at hshape
  · cases hshape
  · exact h r hr e hshape id hmem

theorem PicksOnTop.labelRoot (h : g.PicksOnTop) (hlabel : g.labelRoot index label = some g') :
    g'.PicksOnTop := by
  intro s hs e hshape id hmem
  obtain ⟨r, hr, ⟨e₀, hshape₀, rfl⟩ | ⟨hother, rfl⟩⟩ := labelRoot_eq_some hlabel
  · rw [children_setShape _ hshape₀] at hmem
    rw [shape_setShape] at hshape
    split at hshape
    · cases hshape
    · exact h s hs e hshape id hmem
  · obtain ⟨i, hi⟩ := List.mem_iff_getElem?.mp hs
    rw [shape_setRoot, shape_addNode] at hshape
    split at hshape
    · cases hshape
    · next hold =>
      have hs' := (rules_setRoot hi).resolve_left (by rintro ⟨-, r₀, -, rfl⟩; exact hold rfl)
      rw [children, shape_setRoot, shape_addNode] at hmem
      split at hmem
      · -- The new root is above the former one only, which is no such root.
        rw [List.mem_singleton.mp hmem] at hshape
        exact hother _ _ hshape
      · exact h s (List.mem_of_getElem? hs'.2) e hshape id hmem

end Grammar

namespace Peg

variable {σ : Type} (E : Setting σ)

/-- Parses that start with the rule of a name come to the same in two grammars. -/
def Agree (g g' : Grammar) (name : String) : Prop :=
  ∀ t : Point σ, t.rule = none → ∀ o u, Evaluates E g name t o u ↔ Evaluates E g' name t o u

variable {E} {g g' g'' : Grammar} {name : String}

theorem Agree.refl : Agree E g g name := fun _ _ _ _ => .rfl

theorem Agree.trans (h : Agree E g g' name) (h' : Agree E g' g'' name) : Agree E g g'' name :=
  fun t ht o u => (h t ht o u).trans (h' t ht o u)

theorem Counterparts.agree {pair : Nat → Nat → Prop} {call : String → String → Prop}
    (h : Counterparts g g' pair call) (hcall : Answers E g g' pair call)
    (hcall' : Answers E g' g (fun i' i => pair i i') fun name' name => call name name') {i i' : Nat}
    (hi : g.ruleIndex? name = some i) (hi' : g'.ruleIndex? name = some i') (hpair : pair i i') :
    Agree E g g' name := fun _ ht _ _ =>
  ⟨.of_follows (h.follows hcall) hi hi' hpair ht,
    .of_follows (h.symm.follows hcall') hi' hi hpair ht⟩

/-! ## References -/

section

variable {S : Type} {invoke : Nat → Run S Slot} {index n : Nat}

theorem called_eq (h : g.ruleIndex? name = some index) : called g invoke name = invoke index := by
  simp only [called, h]

/-- A reference is evaluated alike where the rule that it names has kept its place. -/
theorem called_same {pair : Nat → Nat → Prop} (h : Follows E g g' pair n)
    (hindex : g'.ruleIndex? name = g.ruleIndex? name)
    (hpair : ∀ i, g.ruleIndex? name = some i → pair i i) (w : Unit) :
    Refines (namesakes E g g') w (called g (pointRule (E.within g) g n) name) fun m =>
      called g' (pointRule (E.within g') g' m) name := by
  simp only [called, hindex]
  cases hi : g.ruleIndex? name with
  | none => exact .pure _
  | some i => exact h i i (hpair i hi) w

end

/-! ## References that are redirected -/

section

variable {E : Setting σ} {index target n : Nat}

/-- A rule is nothing but a reference to another one. -/
def Forwards (g : Grammar) (index target : Nat) : Prop :=
  ∃ root name, g.Stems index root ∧ g.shape root = .ruleRef name ∧ g.ruleIndex? name = some target

/-- A rule does not depend on the rule that it is invoked from. -/
theorem pointRule_from (rule : Option Nat) (t : Point σ) :
    pointRule E g n index { t with rule } =
      (pointRule E g n index t).map fun r => (r.1, { r.2 with rule }) := by
  cases n with
  | zero => rfl
  | succ n =>
    simp only [pointRule]
    cases body (points E) E.input g (pointRule E g n) n index { t with rule := some index } <;> rfl

/-- Invoking a rule that is nothing but a reference is invoking the rule that it refers to. -/
theorem Forwards.pointRule_eq (h : Forwards g index target) (htrees : g.HasTrees) (t : Point σ) :
    pointRule E g (n + 1) index t = pointRule E g n target t := by
  obtain ⟨root, name, hroot, hshape, hname⟩ := h
  obtain ⟨depth, hin, heval⟩ := body_eq (σ := σ) hroot htrees
  obtain ⟨depth, rfl⟩ := hin.exists_succ
  have hbody : body (points E) E.input g (pointRule E g n) n index = pointRule E g n target := by
    simp only [heval, eval, level, hshape, hname]
  have hfrom : pointRule E g n target { t with rule := some index } = _ :=
    pointRule_from (some index) t
  simp only [pointRule, hbody, hfrom]
  cases hrun : pointRule E g n target t with
  | none => rfl
  | some r =>
    obtain ⟨o, u⟩ := r
    simp only [Option.map_some, ← rule_of_pointRule hrun]

end

/-- A proxy is nothing but a reference to the rule that it stands for. -/
theorem forwards_of_proxy? {index target : Nat} {p : Proxy} (hp : g.proxy? index = some p)
    (htarget : g.ruleIndex? p.target = some target) : Forwards g index target := by
  obtain ⟨r, hr, -, ⟨hshape, -⟩ | ⟨e, hshape, href⟩⟩ := Grammar.proxy?_eq_some hp
  · exact ⟨_, _, ⟨r, hr, .inl rfl⟩, hshape, htarget⟩
  · exact ⟨e, _, ⟨r, hr, .inr ⟨_, hshape⟩⟩, href, htarget⟩

/-- It still is when references to it are redirected. -/
theorem Forwards.redirect {index target : Nat} {source name : String} (h : Forwards g index target)
    (hne : g.ruleIndex? source ≠ some target) : Forwards (g.redirect source name) index target := by
  obtain ⟨root, other, hroot, hshape, htarget⟩ := h
  refine ⟨root, other, Grammar.stems_redirect hroot, ?_, htarget⟩
  rw [Grammar.shape_redirect, hshape]
  dsimp only
  rw [Grammar.redirected, if_neg]
  rintro rfl
  exact hne htarget

/-- A rule is its own counterpart. -/
def Same (g : Grammar) (i i' : Nat) : Prop := i = i' ∧ ∃ r, g.rules[i]? = some r

theorem same_of_ruleIndex? {index : Nat} (h : g.ruleIndex? name = some index) :
    Same g index index := by
  obtain ⟨r, hr, -⟩ := Grammar.name_of_ruleIndex? h
  exact ⟨rfl, r, hr⟩

/-- Rules that have kept their places are evaluated alike. -/
theorem Counterparts.agree_same {call : String → String → Prop}
    (h : Counterparts g g' (Same g) call) (hindex : ∀ name, g'.ruleIndex? name = g.ruleIndex? name)
    (hcall : Answers E g g' (Same g) call)
    (hcall' : Answers E g' g (fun i' i => Same g i i') fun name' name => call name name')
    (name : String) : Agree E g g' name := by
  cases hi : g.ruleIndex? name with
  | some i => exact h.agree hcall hcall' hi ((hindex name).trans hi) (same_of_ruleIndex? hi)
  | none =>
    have hi' := (hindex name).trans hi
    intro t _ o u
    constructor
    · rintro ⟨i, n, hsome, -⟩
      rw [hi] at hsome
      cases hsome
    · rintro ⟨i, n, hsome, -⟩
      rw [hi'] at hsome
      cases hsome

section

variable {index target : Nat} {p : Proxy} {r : Rule}

theorem counterparts_redirect (htrees : g.HasTrees) (source target : String) :
    Counterparts g (g.redirect source target) (Same g)
      fun name name' => name' = Grammar.redirected source target name := by
  refine ⟨htrees, (Grammar.reshapes_redirect g source target).hasTrees htrees, ?_, ?_⟩
  · rintro i _ ⟨rfl, -⟩
    rfl
  · rintro i _ ⟨rfl, r, hr⟩
    refine ⟨r.expression, ⟨r, hr, .inl rfl⟩, ⟨r, hr, .inl rfl⟩, fun x _ => ?_⟩
    rw [Grammar.shape_redirect]
    cases g.shape x
    case ruleRef name => exact .ruleRef rfl
    all_goals exact .same nofun

variable (htrees : g.HasTrees) (hsource : g.ruleIndex? r.name = some index)
  (htarget : g.ruleIndex? p.target = some target)
include htrees hsource htarget

/-- What the proxy comes to afterwards, the rule that it stands for comes to. -/
theorem answers_redirect (hforwards : Forwards (g.redirect r.name p.target) index target) :
    Answers E g (g.redirect r.name p.target) (Same g)
      fun name name' => name' = Grammar.redirected r.name p.target name := by
  have htrees' := (Grammar.reshapes_redirect g r.name p.target).hasTrees htrees
  rintro n hn name _ rfl w
  rw [Grammar.redirected]
  split
  · next hname =>
    have htarget' : (g.redirect r.name p.target).ruleIndex? p.target = some target := htarget
    rw [hname, called_eq hsource]
    simp only [called_eq htarget']
    intro t u htu o t' hrun
    obtain ⟨u', hu', hafter⟩ := hn index index (same_of_ruleIndex? hsource) w t u htu o t' hrun
    refine ⟨u', ?_, hafter⟩
    filter_upwards [(tendsto_add_atTop_nat 1).eventually hu'] with m hm
    rwa [hforwards.pointRule_eq htrees'] at hm
  · exact called_same hn rfl (fun i => same_of_ruleIndex?) w

/-- What the rule comes to, the proxy that stands for it comes to. -/
theorem answers_redirect_back (hforwards : Forwards g index target) :
    Answers E (g.redirect r.name p.target) g (fun i' i => Same g i i')
      fun name' name => name' = Grammar.redirected r.name p.target name := by
  rintro n hn _ name rfl w
  rw [Grammar.redirected]
  split
  · next hname =>
    have htarget' : (g.redirect r.name p.target).ruleIndex? p.target = some target := htarget
    rw [hname, called_eq htarget']
    simp only [called_eq hsource]
    intro t u htu o t' hrun
    obtain ⟨u', hu', hafter⟩ := hn target target (same_of_ruleIndex? htarget) w t u htu o t' hrun
    refine ⟨u', eventually_of_succ ?_, hafter⟩
    filter_upwards [hu'] with m hm
    rwa [hforwards.pointRule_eq htrees]
  · exact called_same hn rfl (fun i => same_of_ruleIndex?) w

end

/-- References to a proxy may be redirected to the rule that it stands for. -/
theorem agree_redirect {index target : Nat} {p : Proxy} {r : Rule} (htrees : g.HasTrees)
    (hunique : g.UniqueNames) (hp : g.proxy? index = some p) (hr : g.rules[index]? = some r)
    (htarget : g.ruleIndex? p.target = some target) (name : String) :
    Agree E g (g.redirect r.name p.target) name := by
  have hsource : g.ruleIndex? r.name = some index := hunique.ruleIndex?_eq hr
  have hforwards : Forwards g index target := forwards_of_proxy? hp htarget
  have hne : g.ruleIndex? r.name ≠ some target := by
    obtain ⟨r', hr', hne, -⟩ := Grammar.proxy?_eq_some hp
    rw [hr] at hr'
    cases hr'
    exact fun hsame => hne (Facts.ruleIndex?_inj htarget hsame)
  exact (counterparts_redirect htrees r.name p.target).agree_same (fun _ => rfl)
    (answers_redirect htrees hsource htarget (hforwards.redirect hne))
    (answers_redirect_back htrees hsource htarget hforwards) name

/-! ## Labels that move -/

section

variable {index : Nat} {label : String}

/-- The label of a root is exchanged, and nothing is above the root. -/
theorem sameBody_setShape {i : Nat} {r s : Rule} {e : NodeId} (htree : g.Tree s.expression)
    (hs : g.rules[i]? = some s) (hshape : g.shape r.expression = .labeled none e)
    (htop : ∀ id, r.expression ∉ g.children id) :
    SameBody Eq g (g.setShape r.expression (.labeled (some label) e)) i i := by
  have hsame {x : NodeId} (hx : x ≠ r.expression) : (g.shape x).Renames Eq
      ((g.setShape r.expression (.labeled (some label) e)).shape x) := by
    rw [Grammar.shape_setShape, if_neg fun h => hx h.1]
    exact .of_eq (fun _ => rfl) _
  -- No walk from below a root comes to the label that changes.
  have hnot {root x : NodeId} (hroot : root ≠ r.expression) (hx : g.Below root x) :
      x ≠ r.expression := by
    rintro rfl
    rcases Relation.ReflTransGen.cases_tail hx with rfl | ⟨y, -, hy⟩
    · exact hroot rfl
    · exact htop y hy
  by_cases hsr : s.expression = r.expression
  · have hroot : e ≠ r.expression := by
      rintro rfl
      refine htop r.expression ?_
      rw [Grammar.children, hshape]
      exact List.mem_singleton_self _
    refine ⟨e, ⟨s, hs, .inr ⟨none, hsr ▸ hshape⟩⟩, ⟨s, hs, .inr ⟨some label, ?_⟩⟩,
      fun x hx => hsame (hnot hroot hx)⟩
    rw [Grammar.shape_setShape, if_pos ⟨hsr, hsr ▸ htree.lt_size⟩]
  · exact ⟨s.expression, ⟨s, hs, .inl rfl⟩, ⟨s, hs, .inl rfl⟩, fun x hx => hsame (hnot hsr hx)⟩

/-- A root gets a label above it. -/
theorem sameBody_setRoot {i : Nat} {r s : Rule} (htree : g.Tree s.expression)
    (hs : g.rules[i]? = some s) (hr : g.rules[index]? = some r) (location : Option Location) :
    SameBody Eq g ((g.addNode (.labeled (some label) r.expression) location).2.setRoot index
      g.nodes.size) i i := by
  refine ⟨s.expression, ⟨s, hs, .inl rfl⟩, ?_, fun x hx => ?_⟩
  · by_cases hi : i = index
    · subst hi
      rw [hr] at hs
      cases hs
      refine ⟨{ r with expression := g.nodes.size }, ?_, .inr ⟨some label, ?_⟩⟩
      · simp [Grammar.setRoot, Grammar.addNode, hr]
      · rw [Grammar.shape_setRoot, Grammar.shape_addNode, if_pos rfl]
    · refine ⟨s, ?_, .inl rfl⟩
      simp [Grammar.setRoot, Grammar.addNode, Ne.symm hi, hs]
  · have hlt : x < g.nodes.size := (htree.of_below hx).lt_size
    rw [Grammar.shape_setRoot, Grammar.shape_addNode, if_neg (Nat.ne_of_lt hlt)]
    exact .of_eq (fun _ => rfl) _

theorem counterparts_labelRoot (htrees : g.HasTrees) (hpicks : g.PicksOnTop)
    (h : g.labelRoot index label = some g') : Counterparts g g' (Same g) Eq := by
  refine ⟨htrees, (Grammar.reshapes_labelRoot h).hasTrees htrees, ?_, ?_⟩
  · rintro i _ ⟨rfl, -⟩
    have hi := congrArg (fun headers => (headers[i]?).map Prod.fst) (Grammar.headers_labelRoot h)
    simp only [List.getElem?_map, Option.map_map] at hi
    exact hi.symm
  · rintro i _ ⟨rfl, s, hs⟩
    have htree := htrees s (List.mem_of_getElem? hs)
    obtain ⟨r, hr, ⟨e, hshape, rfl⟩ | ⟨-, rfl⟩⟩ := Grammar.labelRoot_eq_some h
    · exact sameBody_setShape htree hs hshape (hpicks r (List.mem_of_getElem? hr) e hshape)
    · exact sameBody_setRoot htree hs hr _

/-- A label on the root of a rule changes nothing. -/
theorem agree_labelRoot (htrees : g.HasTrees) (hpicks : g.PicksOnTop)
    (h : g.labelRoot index label = some g') (name : String) : Agree E g g' name := by
  have hindex (name : String) := Grammar.ruleIndex?_of_headers (Grammar.headers_labelRoot h) name
  refine (counterparts_labelRoot htrees hpicks h).agree_same hindex ?_ ?_ name
  · rintro n hn name _ rfl w
    exact called_same hn (hindex _) (fun i => same_of_ruleIndex?) w
  · rintro n hn name _ rfl w
    exact called_same hn (hindex _).symm
      (fun i hi => same_of_ruleIndex? ((hindex _).symm.trans hi)) w

end

/-! ## Rules that are removed -/

/-- A rule is kept at some place. -/
def Kept (g : Grammar) (indices : List Nat) (i place : Nat) : Prop :=
  ∃ r, i ∉ indices ∧ g.rules[i]? = some r ∧ (g.removeRules indices).rules[place]? = some r

theorem kept_of_ruleIndex? {indices : List Nat} {i : Nat} (hi : g.ruleIndex? name = some i)
    (hkept : i ∉ indices) :
    ∃ place, (g.removeRules indices).ruleIndex? name = some place ∧ Kept g indices i place := by
  obtain ⟨r, hr, -⟩ := Grammar.name_of_ruleIndex? hi
  obtain ⟨place, hplace, -, hr'⟩ := Grammar.ruleIndex?_removeRules hi hr hkept
  exact ⟨place, hplace, r, hkept, hr, hr'⟩

section

variable {indices : List Nat} (htrees : g.HasTrees) (hresolved : g.Resolved)
  (hkept : ∀ x name i, (g.removeRules indices).Owned x → g.shape x = .ruleRef name →
    g.ruleIndex? name = some i → i ∉ indices)
include htrees hresolved hkept

theorem counterparts_removeRules : Counterparts g (g.removeRules indices) (Kept g indices)
    fun name name' => name = name' ∧ ∃ i, g.ruleIndex? name = some i ∧ i ∉ indices := by
  refine ⟨htrees, htrees.removeRules indices, ?_, ?_⟩
  · rintro i place ⟨r, -, hr, hr'⟩
    rw [hr, hr']
  · rintro i place ⟨r, hleft, hr, hr'⟩
    refine ⟨r.expression, ⟨r, hr, .inl rfl⟩, ⟨r, hr', .inl rfl⟩, fun x hx => ?_⟩
    have hrefs (name : String) (hshape : g.shape x = .ruleRef name) :
        ∃ i, g.ruleIndex? name = some i ∧ i ∉ indices := by
      have hresolves := hresolved x name ⟨r, List.mem_of_getElem? hr, hx⟩ hshape
      obtain ⟨j, hj⟩ := Option.isSome_iff_exists.mp hresolves
      exact ⟨j, hj, hkept x name j ⟨r, List.mem_of_getElem? hr', hx⟩ hshape hj⟩
    have hsame : (g.removeRules indices).shape x = g.shape x := rfl
    rw [hsame]
    cases hshape : g.shape x
    case ruleRef name => exact .ruleRef ⟨rfl, hrefs name hshape⟩
    all_goals exact .same nofun

/-- Rules may be removed that nothing refers to. -/
theorem agree_removeRules {i : Nat} (hi : g.ruleIndex? name = some i) (hstart : i ∉ indices) :
    Agree E g (g.removeRules indices) name := by
  obtain ⟨place, hplace, hpair⟩ := kept_of_ruleIndex? hi hstart
  refine (counterparts_removeRules htrees hresolved hkept).agree ?_ ?_ hi hplace hpair
  · rintro n hn name _ ⟨rfl, j, hj, hleft⟩ w
    obtain ⟨place, hplace, hpair⟩ := kept_of_ruleIndex? hj hleft
    rw [called_eq hj]
    simp only [called_eq hplace]
    exact hn j place hpair w
  · rintro n hn _ name ⟨rfl, j, hj, hleft⟩ w
    obtain ⟨place, hplace, hpair⟩ := kept_of_ruleIndex? hj hleft
    rw [called_eq hplace]
    simp only [called_eq hj]
    exact hn place j hpair w

end

end Peg

/-! ## The passes -/

namespace Session

open Peg

variable {σ : Type} {E : Setting σ} {s : Session} {name : String}

/-- What redirecting references and labelling roots keeps is kept when proxies are reduced. Nothing
is above the roots that get a label in their place. -/
theorem reduceProxies_grammar_induct {P : Grammar → Prop} (htrees : s.grammar.HasTrees)
    (hpicks : s.grammar.PicksOnTop) (hstart : P s.grammar)
    (hredirect : ∀ {g : Grammar} {index target : Nat} {r : Rule} {p : Proxy}, g.HasTrees → P g →
      g.proxy? index = some p → g.rules[index]? = some r → g.ruleIndex? p.target = some target →
      P (g.redirect r.name p.target))
    (hlabel : ∀ {g g' : Grammar} {index : Nat} {label : String}, g.HasTrees → g.PicksOnTop → P g →
      g.labelRoot index label = some g' → P g') :
    s.reduceProxies.2.grammar.HasTrees ∧ P s.reduceProxies.2.grammar := by
  suffices hall : s.reduceProxies.2.grammar.HasTrees ∧ s.reduceProxies.2.grammar.PicksOnTop ∧
      P s.reduceProxies.2.grammar by
    exact ⟨hall.1, hall.2.2⟩
  refine reduceProxies_induct (P := fun _ t => t.grammar.HasTrees ∧ t.grammar.PicksOnTop ∧
    P t.grammar) ⟨htrees, hpicks, hstart⟩ fun doomed t index ht => ?_
  obtain ⟨htrees, hpicks, hP⟩ := ht
  rcases t.reduceProxy_cases index with
    hsame | ⟨r, p, target, hp, hr, htarget, -, -, hgrammar⟩
  · rw [hsame]
    exact ⟨htrees, hpicks, hP⟩
  have htrees' := (Grammar.reshapes_redirect t.grammar r.name p.target).hasTrees htrees
  have hpicks' := hpicks.redirect r.name p.target
  have hP' := hredirect htrees hP hp hr htarget
  rcases hgrammar with hgrammar | ⟨label, hroot⟩
  · rw [hgrammar]
    exact ⟨htrees', hpicks', hP'⟩
  · exact ⟨(Grammar.reshapes_labelRoot hroot).hasTrees htrees', hpicks'.labelRoot hroot,
      hlabel htrees' hpicks' hP' hroot⟩

/-- Reducing proxies changes no parse. -/
theorem agree_reduceProxies (htrees : s.grammar.HasTrees) (hpicks : s.grammar.PicksOnTop)
    (hunique : s.grammar.UniqueNames) (name : String) :
    s.reduceProxies.2.grammar.HasTrees ∧ Agree E s.grammar s.reduceProxies.2.grammar name := by
  have hall := reduceProxies_grammar_induct (s := s)
    (P := fun g => g.UniqueNames ∧ Agree E s.grammar g name) htrees hpicks ⟨hunique, .refl⟩
    (fun htrees h hp hr htarget =>
      ⟨h.1, h.2.trans (agree_redirect htrees h.1 hp hr htarget name)⟩)
    fun htrees hpicks h hlabel => ⟨.of_headers h.1 (Grammar.headers_labelRoot hlabel),
      h.2.trans (agree_labelRoot htrees hpicks hlabel name)⟩
  exact ⟨hall.1, hall.2.2⟩

section

variable (h : s.UpToDate) (hresolved : s.grammar.Resolved) (htrees : s.grammar.HasTrees)
include h hresolved htrees

/-- Dropping unused rules changes no parse. -/
theorem UpToDate.agree_dropUnusedRules (hname : name ∈ s.facts.starters) :
    Agree E s.grammar s.dropUnusedRules.grammar name := by
  obtain ⟨index, hindex, hused⟩ := h.used hname
  rw [dropUnusedRules_grammar]
  exact agree_removeRules htrees hresolved (fun x name i hx => h.not_mem_unused htrees hx) hindex
    hused

/-- Taking out proxies changes no parse. -/
theorem UpToDate.agree_elideProxies (hneeded : s.AllNeeded) (hpicks : s.grammar.PicksOnTop)
    (hname : name ∈ s.facts.starters) : Agree E s.grammar s.elideProxies.grammar name := by
  obtain ⟨htrees', hagree⟩ := agree_reduceProxies (E := E) htrees hpicks hneeded.unique name
  obtain ⟨-, hreduced⟩ := h.reduceProxies hneeded
  obtain ⟨index, hindex⟩ := Option.isSome_iff_exists.mp (h.resolved name hname)
  have hindex' : s.reduceProxies.2.grammar.ruleIndex? name = some index :=
    (Grammar.ruleIndex?_of_headers hreduced.headers name).trans hindex
  have hstays := hreduced.not_doomed h.links.starts (.start hname) hindex'
  rw [elideProxies_grammar]
  exact hagree.trans (agree_removeRules htrees' (resolved_reduceProxies hresolved)
    (fun x name i _ => h.not_mem_doomed hneeded) hindex' hstays)

end

end Session

/-! ## Grammars that were checked -/

/-- Prepare and check a grammar, and do no more. -/
def check (g : Grammar) (options : Options) (listeners : Nat) : Verdict × Session :=
  Pipeline.run (Pipeline.standard.take 2)
    ((Session.start g options listeners).logs .info (greeting g options))

theorem exists_checked {g : Grammar} (htrees : g.HasTrees) {options : Options} {listeners : Nat}
    (hok : (check g options listeners).1 = .ok ()) :
    ∃ p, Checked g options p (check g options listeners).2 := by
  have hrun : check g options listeners = (.ok (), (check g options listeners).2) :=
    Prod.ext hok rfl
  generalize (check g options listeners).2 = s at hrun ⊢
  obtain ⟨t, hprepare, hrun⟩ := Pipeline.run_cons hrun
  obtain ⟨u, hcheck, hend⟩ := Pipeline.run_cons hrun
  obtain rfl : u = s := congrArg Prod.snd hend
  exact (Checked.of_run htrees (Upkeep.begin g options listeners) hprepare hcheck).2

/-- Neither dropping unused rules nor taking out proxies changes a parse. -/
theorem Checked.agree {σ : Type} {g : Grammar} {options : Options} {p s : Session}
    (h : Checked g options p s) (hplain : g.Plain) {name : String}
    (hname : name ∈ (options.startRules.resolve g).starters) (E : Setting σ) :
    Peg.Agree E g s.elideProxies.grammar name := by
  have htrees : p.grammar.HasTrees := h.prepared ▸ hplain.trees
  have hpicks : s.grammar.PicksOnTop := by
    rw [h.grammar, Session.dropUnusedRules_grammar, h.prepared]
    exact Grammar.picksOnTop_removeRules hplain.onTop _
  have hdropped := h.preparedUpToDate.agree_dropUnusedRules (E := E) h.preparedResolved htrees
    (h.preparedStarters ▸ hname)
  rw [h.prepared, ← h.grammar] at hdropped
  exact hdropped.trans (h.upToDate.agree_elideProxies h.resolved (h.hasTrees hplain.trees)
    h.needed hpicks (h.starters ▸ hname))

/-- The rules that a parse may start from are there before and afterwards. -/
theorem Checked.exists_starter {g : Grammar} {options : Options} {p s : Session}
    (h : Checked g options p s) {name : String}
    (hname : name ∈ (options.startRules.resolve g).starters) :
    (g.ruleIndex? name).isSome ∧ (s.elideProxies.grammar.ruleIndex? name).isSome := by
  constructor
  · rw [← h.prepared]
    exact h.preparedUpToDate.resolved name (h.preparedStarters ▸ hname)
  · obtain ⟨helided, hstarters, -⟩ := h.upToDate.elideProxies h.needed
    refine helided.resolved name ?_
    rw [hstarters, h.starters]
    exact hname

/-- A grammar that was accepted has the same parses once unused rules are dropped and proxies are
taken out: from each of the rules that a parse may start from, whatever the input and the handler of
actions are, and from any point. What is left refers to nothing that is gone. -/
theorem check_agree {g : Grammar} (hplain : g.Plain) (options : Options) (listeners : Nat)
    (hok : (check g options listeners).1 = .ok ()) :
    let left := (check g options listeners).2.elideProxies.grammar
    (∀ name ∈ (options.startRules.resolve g).starters,
      ((g.ruleIndex? name).isSome ∧ (left.ruleIndex? name).isSome) ∧
      ∀ {σ : Type} (E : Setting σ), Peg.Agree E g left name) ∧ left.Resolved := by
  obtain ⟨p, hp⟩ := exists_checked hplain.trees hok
  exact ⟨fun name hname => ⟨hp.exists_starter hname, hp.agree hplain hname⟩,
    hp.upToDate.resolved_elideProxies hp.resolved hp.needed⟩

/-- A grammar of two characters. The rule `second` stands for `first`, under a label, and `first`
stands for `item`. Nothing refers to `spare`. -/
def aliased : GrammarSource where
  rules := [
    ⟨"start", .of (.action (.of (.sequence [
      .of (.labeled (some "a") (.of (.ruleRef "second"))),
      .of (.labeled (some "b") (.of (.ruleRef "first")))])) "pair"), [], none⟩,
    ⟨"second", .of (.labeled (some "value") (.of (.ruleRef "first"))), [], none⟩,
    ⟨"first", .of (.ruleRef "item"), [], none⟩,
    ⟨"spare", .of .any, [], none⟩,
    ⟨"item", .of (.action (.of .any) "item"), [], none⟩]

/-- Parses of two characters, where actions give the text and their calls are written down. -/
def aliasedSetting : Setting (List (String × List Value)) where
  program := default
  input := .ofString "xy"
  handler _ _ c args calls := (.ok (.string c.text), (c.ruleName, args) :: calls)

/-- Both proxies are bypassed. The one that a parse may start from is left. -/
theorem aliased_agree :
    let options : Options := { startRules := .listed ["start", "second"] }
    let left := (check (.ofSource aliased) options 0).2.elideProxies.grammar
    (check (.ofSource aliased) options 0).1 = .ok () ∧
      left.rules.map (·.name) = ["start", "second", "item"] ∧ left.Resolved ∧
      Peg.Evaluates aliasedSetting left "start" ⟨0, none, [], []⟩ (.ok (.value (.string "xy")))
        ⟨2, none, [], [("start", [.string "x", .string "y"]), ("item", []), ("item", [])]⟩ ∧
      Peg.Evaluates aliasedSetting left "second" ⟨1, none, [], []⟩ (.ok (.value (.string "y")))
        ⟨2, none, [], [("item", [])]⟩ := by
  intro options left
  have hok : (check (.ofSource aliased) options 0).1 = .ok () := by decide +kernel
  have hnames : left.rules.map (·.name) = ["start", "second", "item"] := by decide +kernel
  obtain ⟨hstarters, hresolved⟩ := check_agree (Grammar.ofSource_plain aliased) options 0 hok
  have hstart : "start" ∈ (options.startRules.resolve (.ofSource aliased)).starters := by
    decide +kernel
  have hsecond : "second" ∈ (options.startRules.resolve (.ofSource aliased)).starters := by
    decide +kernel
  refine ⟨hok, hnames, hresolved, ?_, ?_⟩
  · refine ((hstarters "start" hstart).2 aliasedSetting _ rfl _ _).mp ⟨0, 4, ?_, ?_⟩
    · decide +kernel
    · cbv
  · refine ((hstarters "second" hsecond).2 aliasedSetting _ rfl _ _).mp ⟨1, 3, ?_, ?_⟩
    · decide +kernel
    · cbv

end PegMachine
