import PegMachine.Proofs.Guards
import PegMachine.Proofs.Removal
import PegMachine.Session.Transforms

/-!
# Taking out proxies

Proxies are reduced one after the other: what refers to a proxy is made to refer to the rule that it
stands for, and its label may be put on the root of that rule. In the end those proxies are removed
that no parse starts from. Each of these steps is a small change to the nodes of the grammar, and
none of them takes progress away.
-/

namespace PegMachine

open Peg

namespace Grammar

variable {g g' : Grammar} {index target : Nat} {source name label : String} {id : NodeId} {r : Rule}
  {p : Proxy}

/-! ## Changes to nodes -/

/-- The name that stands in place of a name after a redirection. -/
def redirected (source target name : String) : String := if name = source then target else name

theorem shape_redirect (g : Grammar) (source target : String) (id : NodeId) :
    (g.redirect source target).shape id =
      match g.shape id with
      | .ruleRef name => .ruleRef (redirected source target name)
      | shape => shape := by
  simp only [shape, node, redirect, Array.getD_eq_getD_getElem?, Array.getElem?_map]
  cases g.nodes[id]? with
  | none => rfl
  | some n =>
    obtain ⟨shape, location⟩ := n
    simp only [Option.map_some, Option.getD_some, refersTo, redirected]
    cases shape
    case ruleRef name =>
      by_cases h : name = source
      · simp [h]
      · simp [h]
    all_goals rfl

theorem shape_setShape (g : Grammar) (id : NodeId) (shape : Shape) (x : NodeId) :
    (g.setShape id shape).shape x =
      if x = id ∧ id < g.nodes.size then shape else g.shape x := by
  simp only [Grammar.shape, node, setShape, Array.getD_eq_getD_getElem?, Array.getElem?_modify]
  by_cases hx : id = x
  · subst hx
    by_cases hlt : id < g.nodes.size
    · simp [hlt]
    · simp [hlt]
  · have hx' : ¬x = id := fun h => hx h.symm
    simp [hx, hx']

theorem shape_setRoot (g : Grammar) (index : Nat) (id x : NodeId) :
    (g.setRoot index id).shape x = g.shape x := rfl

/-- A label may be exchanged for another one, or for none, without a change to what is below. -/
theorem children_setShape {id e : NodeId} {other : Option String} (other' : Option String)
    (hshape : g.shape id = .labeled other e) (x : NodeId) :
    (g.setShape id (.labeled other' e)).children x = g.children x := by
  rw [children, shape_setShape]
  split
  · next hx =>
    rw [hx.1, children, hshape]
    rfl
  · rfl

/-- Rules have the roots that they had, apart from the one that got a new root. -/
theorem rules_setRoot {i : Nat} {root : NodeId} {s : Rule}
    (hs : (g.setRoot index root).rules[i]? = some s) :
    (i = index ∧ ∃ r, g.rules[index]? = some r ∧ s = { r with expression := root }) ∨
      i ≠ index ∧ g.rules[i]? = some s := by
  simp only [setRoot, List.getElem?_modify] at hs
  split at hs
  · next hi =>
    obtain ⟨r, hr, rfl⟩ := Option.map_eq_some_iff.mp hs
    exact .inl ⟨hi.symm, r, hi.symm ▸ hr, rfl⟩
  · next hi =>
    rw [id_map'] at hs
    exact .inr ⟨Ne.symm hi, hs⟩

/-- A label is put on the root of a rule: a root that is under a label without a name gets one, any
other root gets a new root above it. -/
theorem labelRoot_eq_some (h : g.labelRoot index label = some g') :
    ∃ r, g.rules[index]? = some r ∧
      ((∃ e, g.shape r.expression = .labeled none e ∧
        g' = g.setShape r.expression (.labeled (some label) e)) ∨
      ((∀ label e, g.shape r.expression ≠ .labeled label e) ∧
        g' = (g.addNode (.labeled (some label) r.expression)
          (g.node r.expression).location).2.setRoot index g.nodes.size)) := by
  unfold labelRoot at h
  split at h
  · cases h
  · next r hr =>
    refine ⟨r, hr, ?_⟩
    split at h
    · cases h
    · next e hshape =>
      cases h
      exact .inl ⟨e, hshape, rfl⟩
    · next hsome hnone =>
      cases h
      refine .inr ⟨fun other e hshape => ?_, rfl⟩
      cases other with
      | none => exact hnone e hshape
      | some label => exact hsome label e hshape

/-- What holds of labels and of all shapes before holds of all shapes afterwards. -/
theorem shapes_labelRoot {P : Shape → Prop} (hlabeled : ∀ label e, P (.labeled label e))
    (h : g.labelRoot index label = some g') (hshapes : ∀ id, P (g.shape id)) (id : NodeId) :
    P (g'.shape id) := by
  obtain ⟨r, -, ⟨e, -, rfl⟩ | ⟨-, rfl⟩⟩ := labelRoot_eq_some h
  · rw [shape_setShape]
    split
    · exact hlabeled _ _
    · exact hshapes id
  · rw [shape_setRoot, shape_addNode]
    split
    · exact hlabeled _ _
    · exact hshapes id

/-! ## Proxies -/

/-- A rule is nothing but a reference, perhaps under a label. -/
theorem proxy?_eq_some (h : g.proxy? index = some p) :
    ∃ r, g.rules[index]? = some r ∧ p.target ≠ r.name ∧
      (g.shape r.expression = .ruleRef p.target ∧ p.label = none ∨
        ∃ e, g.shape r.expression = .labeled p.label e ∧ g.shape e = .ruleRef p.target) := by
  unfold proxy? at h
  split at h
  · cases h
  · next r hr =>
    refine ⟨r, hr, ?_⟩
    unfold underLabel at h
    cases hshape : g.shape r.expression
    case labeled label e =>
      simp only [hshape] at h
      split at h
      · next name href =>
        split at h
        · cases h
        · next hne =>
          cases h
          exact ⟨hne, .inr ⟨e, rfl, href⟩⟩
      · cases h
    case ruleRef name =>
      simp only [hshape] at h
      split at h
      · cases h
      · next hne =>
        cases h
        exact ⟨hne, .inl ⟨rfl, rfl⟩⟩
    all_goals simp [hshape] at h

/-! ## Reshaping -/

theorem reshapes_redirect (g : Grammar) (source target : String) :
    g.Reshapes (fun name name' => name' = redirected source target name)
      (g.redirect source target) := by
  refine ⟨by simp [redirect], fun id _ => ?_, fun r hr => ⟨r, hr, rfl, .inl rfl⟩⟩
  rw [shape_redirect]
  cases g.shape id
  case ruleRef name => exact .ruleRef rfl
  all_goals exact .same nofun

theorem reshapes_labelRoot (h : g.labelRoot index label = some g') : g.Reshapes Eq g' := by
  obtain ⟨r, hr, ⟨e, hshape, rfl⟩ | ⟨-, rfl⟩⟩ := labelRoot_eq_some h
  · refine ⟨by simp [setShape], fun id _ => ?_, fun r hr => ⟨r, hr, rfl, .inl rfl⟩⟩
    rw [shape_setShape]
    split
    · next hid =>
      rw [hid.1, hshape]
      exact .labeled _ _ _
    · exact .of_eq (fun _ => rfl) _
  · have hsize : g.nodes.size < ((g.addNode (.labeled (some label) r.expression)
        (g.node r.expression).location).2.setRoot index g.nodes.size).nodes.size := by
      simp [addNode, setRoot]
    refine ⟨Nat.le_of_lt hsize, fun id hlt => ?_, fun r' hr' => ?_⟩
    · rw [shape_setRoot, shape_addNode, if_neg (Nat.ne_of_lt hlt)]
      exact .of_eq (fun _ => rfl) _
    · obtain ⟨i, hi⟩ := List.mem_iff_getElem?.mp hr'
      rcases rules_setRoot hi with ⟨-, r₀, hr₀, rfl⟩ | ⟨-, hold⟩
      · rw [show r₀ = r from Option.some.inj (hr₀.symm.trans hr)]
        refine ⟨r, List.mem_of_getElem? hr, rfl, .inr ⟨hsize, hsize, some label, ?_⟩⟩
        rw [shape_setRoot, shape_addNode, if_pos rfl]
      · exact ⟨r', List.mem_of_getElem? hold, rfl, .inl rfl⟩

theorem reshapes_removeRules (g : Grammar) (indices : List Nat) :
    g.Reshapes Eq (g.removeRules indices) :=
  ⟨Nat.le_refl _, fun _ _ => .of_eq (fun _ => rfl) _,
    fun r hr => ⟨r, mem_of_mem_removeRules hr, rfl, .inl rfl⟩⟩

/-! ## Progress -/

section

variable {eats : NodeId → Prop} {rule : String → Prop} {rank : String → Nat}

/-- The rule that a proxy stands for is of a lower rank. -/
theorem Progress.rank_lt (h : g.Progress eats rule rank) (hp : g.proxy? index = some p)
    (hr : g.rules[index]? = some r) : rank p.target < rank r.name := by
  obtain ⟨r', hr', -, hbody⟩ := proxy?_eq_some hp
  rw [hr] at hr'
  cases hr'
  obtain ⟨-, hguarded⟩ := h.guarded r (List.mem_of_getElem? hr)
  rcases hbody with ⟨hshape, -⟩ | ⟨e, hshape, href⟩
  · rw [hshape] at hguarded
    exact hguarded
  · rw [hshape] at hguarded
    have he := hguarded e (List.mem_singleton_self e)
    cases hsize : g.nodes.size with
    | zero =>
      rw [hsize] at he
      exact he.elim
    | succ n =>
      rw [hsize] at he
      obtain ⟨-, hlow⟩ := he
      rw [href] at hlow
      exact hlow

/-- The rule that a proxy stands for consumes something if the proxy does. -/
theorem Progress.rule_target (h : g.Progress eats rule rank) (hp : g.proxy? index = some p)
    (hr : g.rules[index]? = some r) (hrule : rule r.name) : rule p.target := by
  obtain ⟨r', hr', -, hbody⟩ := proxy?_eq_some hp
  rw [hr] at hr'
  cases hr'
  have hroot := (h.node _ (h.root r (List.mem_of_getElem? hr) hrule)).2
  rcases hbody with ⟨hshape, -⟩ | ⟨e, hshape, href⟩
  · rwa [hshape] at hroot
  · rw [hshape] at hroot
    have he := (h.node e hroot).2
    rwa [href] at he

theorem Progress.redirect (h : g.Progress eats rule rank) (hp : g.proxy? index = some p)
    (hr : g.rules[index]? = some r) :
    ∃ eats', (g.redirect r.name p.target).Progress eats' rule rank := by
  refine h.reshape (reshapes_redirect g _ _) ?_ ?_
  · rintro name _ rfl hrule
    rw [redirected]
    split
    · next heq => exact h.rule_target hp hr (heq ▸ hrule)
    · exact hrule
  · rintro name _ rfl
    rw [redirected]
    split
    · next heq =>
      rw [heq]
      exact Nat.le_of_lt (h.rank_lt hp hr)
    · exact Nat.le_refl _

/-- Nothing is lost where references stay as they are. -/
theorem Progress.reshape_eq (h : g.Progress eats rule rank) (hre : g.Reshapes Eq g') :
    ∃ eats', g'.Progress eats' rule rank :=
  h.reshape hre (fun _ _ hname hrule => hname ▸ hrule) fun _ _ hname => hname ▸ Nat.le_refl _

end

end Grammar

/-! ## In a session -/

namespace Session

variable {s : Session}

theorem redirectReferences_keeps (s : Session) (source target : String) :
    ({ s with grammar := s.grammar.redirect source target } : Session).Keeps
      (s.redirectReferences source target) :=
  Keeps.foldl (fun t _ => keeps_info t _ _) _ _

theorem moveLabel_cases (s : Session) (source target label : String) (index : Nat) :
    (s.moveLabel source target index label).facts = s.facts ∧
      ((s.moveLabel source target index label).grammar = s.grammar ∨
        s.grammar.labelRoot index label =
          some (s.moveLabel source target index label).grammar) := by
  unfold moveLabel
  split
  · exact ⟨rfl, .inl rfl⟩
  · next hlabel => exact ⟨rfl, .inr hlabel⟩

/-- What becomes of a session in which a rule is reduced, if it is a proxy. -/
theorem reduceProxy_cases (s : Session) (index : Nat) :
    s.reduceProxy index = (false, s) ∨
      ∃ r p target, s.grammar.proxy? index = some p ∧ s.grammar.rules[index]? = some r ∧
        s.grammar.ruleIndex? p.target = some target ∧
        (s.reduceProxy index).1 = !(s.facts.rules[index]?).any (·.starter.isStarter) ∧
        (s.reduceProxy index).2.facts = s.facts ∧
        ((s.reduceProxy index).2.grammar = s.grammar.redirect r.name p.target ∨
          ∃ label, (s.grammar.redirect r.name p.target).labelRoot target label =
            some (s.reduceProxy index).2.grammar) := by
  unfold reduceProxy
  split
  · next p r hp hr =>
    split
    · exact .inl rfl
    · next target htarget =>
      refine .inr ⟨r, p, target, hp, hr, htarget, ?_⟩
      dsimp only
      generalize hinfo : s.info _ _ = t
      have ht : s.Keeps t := hinfo ▸ keeps_info s _ _
      have hredirected := redirectReferences_keeps t r.name p.target
      have hgrammar : (t.redirectReferences r.name p.target).grammar =
          s.grammar.redirect r.name p.target := by
        rw [hredirected.grammar, ht.grammar]
      have hfacts : (t.redirectReferences r.name p.target).facts = s.facts := by
        rw [hredirected.facts, ht.facts]
      cases p.label with
      | none => exact ⟨by rw [hfacts], hfacts, .inl hgrammar⟩
      | some label =>
        obtain ⟨hsame, hlabel⟩ :=
          moveLabel_cases (t.redirectReferences r.name p.target) r.name p.target label target
        rw [hgrammar] at hlabel
        refine ⟨by rw [hsame, hfacts], hsame.trans hfacts, ?_⟩
        exact hlabel.imp_right fun h => ⟨label, h⟩
  · exact .inl rfl

/-- What holds before proxies are reduced and is kept by each step holds afterwards. -/
theorem reduceProxies_induct {P : List Nat → Session → Prop} (hstart : P [] s)
    (hstep : ∀ doomed t index, P doomed t →
      P (if (t.reduceProxy index).1 then doomed ++ [index] else doomed)
        (t.reduceProxy index).2) : P s.reduceProxies.1 s.reduceProxies.2 := by
  unfold reduceProxies
  refine List.foldlRecOn (motive := fun (out : List Nat × Session) => P out.1 out.2) _ _ hstart ?_
  rintro ⟨doomed, t⟩ h index -
  exact hstep doomed t index h

theorem removeRules_nil (s : Session) : s.removeRules [] = s.relink := by
  simp [removeRules, Grammar.removeRules_nil]

/-- In the end the proxies that can go are removed. -/
theorem elideProxies_eq (s : Session) : ∃ t, s.reduceProxies.2.Keeps t ∧
    s.elideProxies = t.removeRules s.reduceProxies.1 := by
  unfold elideProxies
  dsimp only
  split
  · next hnone =>
    rw [List.isEmpty_iff.mp hnone, ← removeRules_nil]
    exact ⟨_, .refl _, rfl⟩
  · exact ⟨_, keeps_logs _ _ _, rfl⟩

theorem elideProxies_grammar (s : Session) :
    s.elideProxies.grammar = s.reduceProxies.2.grammar.removeRules s.reduceProxies.1 := by
  obtain ⟨t, hkeeps, helided⟩ := s.elideProxies_eq
  rw [helided, ← hkeeps.grammar]
  rfl

/-- Taking out proxies takes no progress away. -/
theorem progress_elideProxies {eats : NodeId → Prop} {rule : String → Prop} {rank : String → Nat}
    (h : s.grammar.Progress eats rule rank) :
    ∃ eats', s.elideProxies.grammar.Progress eats' rule rank := by
  have hreduced : ∃ eats', s.reduceProxies.2.grammar.Progress eats' rule rank := by
    refine reduceProxies_induct (P := fun _ t => ∃ eats', t.grammar.Progress eats' rule rank)
      ⟨eats, h⟩ fun doomed t index => ?_
    rintro ⟨eats, h⟩
    rcases t.reduceProxy_cases index with
      hsame | ⟨r, p, target, hp, hr, -, -, -, hgrammar | ⟨label, hlabel⟩⟩
    · rw [hsame]
      exact ⟨eats, h⟩
    · rw [hgrammar]
      exact h.redirect hp hr
    · obtain ⟨eats', h'⟩ := h.redirect hp hr
      exact h'.reshape_eq (Grammar.reshapes_labelRoot hlabel)
  obtain ⟨eats', h'⟩ := hreduced
  rw [elideProxies_grammar]
  exact h'.reshape_eq (Grammar.reshapes_removeRules _ _)

/-- Taking out proxies leaves trees. -/
theorem hasTrees_elideProxies (h : s.grammar.HasTrees) : s.elideProxies.grammar.HasTrees := by
  rw [elideProxies_grammar]
  refine (Grammar.reshapes_removeRules _ _).hasTrees ?_
  refine reduceProxies_induct (P := fun _ t => t.grammar.HasTrees) h fun doomed t index ht => ?_
  rcases t.reduceProxy_cases index with
    hsame | ⟨r, p, target, -, -, -, -, -, hgrammar | ⟨label, hlabel⟩⟩
  · rwa [hsame]
  · rw [hgrammar]
    exact (Grammar.reshapes_redirect _ _ _).hasTrees ht
  · exact (Grammar.reshapes_labelRoot hlabel).hasTrees
      ((Grammar.reshapes_redirect _ _ _).hasTrees ht)

/-- What holds of references and labels and of all shapes before holds of all shapes once proxies
are taken out. -/
theorem shapes_elideProxies {P : Shape → Prop} (href : ∀ name, P (.ruleRef name))
    (hlabeled : ∀ label e, P (.labeled label e)) (h : ∀ id, P (s.grammar.shape id)) (id : NodeId) :
    P (s.elideProxies.grammar.shape id) := by
  have hredirect (g : Grammar) (source target : String) (hg : ∀ id, P (g.shape id)) (id : NodeId) :
      P ((g.redirect source target).shape id) := by
    rw [Grammar.shape_redirect]
    split
    · exact href _
    · exact hg id
  rw [elideProxies_grammar]
  refine reduceProxies_induct (P := fun _ t => ∀ id, P (t.grammar.shape id)) h
    (fun doomed t index ht => ?_) id
  rcases t.reduceProxy_cases index with
    hsame | ⟨r, p, target, -, -, -, -, -, hgrammar | ⟨label, hlabel⟩⟩
  · rwa [hsame]
  · rw [hgrammar]
    exact hredirect _ _ _ ht
  · exact Grammar.shapes_labelRoot hlabeled hlabel (hredirect _ _ _ ht)

end Session

end PegMachine
