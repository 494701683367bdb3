import PegMachine.Analysis.Labels
import PegMachine.Proofs.Elision

/-!
# Labels that are bound once

The check for duplicate labels walks down the expression of each rule with the labels bound so far.
It finds nothing where no label is bound a second time on the way, and that stays so when proxies
are taken out: what is below the root of a rule does not change but for the names of references, and
there is nothing around the root that a label on it could be bound by already.
-/

namespace PegMachine

namespace LabelScope

variable {g g' : Grammar} {rule depth depth' : Nat} {id : NodeId} {es : List NodeId}
  {found : List DuplicateLabel} {bound bound' : List String}

/-- The labels bound behind a node, unless a label is bound a second time on the way. -/
def after? (g : Grammar) : Nat → NodeId → List String → Option (List String)
  | 0, _, bound => some bound
  | depth + 1, id, bound =>
    match g.shape id with
    | .choice alternatives =>
      if ∀ e ∈ alternatives, (after? g depth e bound).isSome then some bound else none
    | .labeled label e =>
      if (after? g depth e bound).isSome ∧ ∀ l ∈ label, l ∉ bound then some (label.toList ++ bound)
      else none
    | shape => shape.children.foldlM (fun bound e => after? g depth e bound) bound

/-- The labels bound behind nodes that share a scope. -/
def afterAll? (g : Grammar) (depth : Nat) (es : List NodeId) (bound : List String) :
    Option (List String) := es.foldlM (fun bound e => after? g depth e bound) bound

theorem afterAll?_cons {e : NodeId} : afterAll? g depth (e :: es) bound =
    (after? g depth e bound).bind (afterAll? g depth es) := List.foldlM_cons

/-- How nodes are gone through: what is in a choice or under a label starts with the labels around
it and leaves none behind, everything else shares one scope. -/
theorem after?_cases (h : after? g (depth + 1) id bound = some bound') :
    (∃ alternatives, g.shape id = .choice alternatives ∧ bound' = bound ∧
      ∀ e ∈ alternatives, ∃ inner, after? g depth e bound = some inner) ∨
    (∃ label e, g.shape id = .labeled label e ∧ bound' = label.toList ++ bound ∧
      (∃ inner, after? g depth e bound = some inner) ∧ ∀ l ∈ label, l ∉ bound) ∨
    ((∀ alternatives, g.shape id ≠ .choice alternatives) ∧
      (∀ label e, g.shape id ≠ .labeled label e) ∧
      afterAll? g depth (g.children id) bound = some bound') := by
  rw [after?] at h
  split at h
  · next alternatives hshape =>
    obtain ⟨hall, hbound⟩ := Option.ite_none_right_eq_some.mp h
    exact .inl ⟨_, hshape, (Option.some.inj hbound).symm,
      fun e he => Option.isSome_iff_exists.mp (hall e he)⟩
  · next label e hshape =>
    obtain ⟨⟨hinner, hnot⟩, hbound⟩ := Option.ite_none_right_eq_some.mp h
    exact .inr (.inl ⟨label, e, hshape, (Option.some.inj hbound).symm,
      Option.isSome_iff_exists.mp hinner, hnot⟩)
  · next hchoice hlabeled => exact .inr (.inr ⟨hchoice, hlabeled, h⟩)

theorem subset_of_forall
    (hsub : ∀ e bound bound', after? g depth e bound = some bound' → bound ⊆ bound')
    (h : afterAll? g depth es bound = some bound') : bound ⊆ bound' := by
  induction es generalizing bound with
  | nil => exact Option.some.inj h ▸ List.Subset.refl _
  | cons e rest ih =>
    rw [afterAll?_cons] at h
    obtain ⟨next, he, hrest⟩ := Option.bind_eq_some_iff.mp h
    exact List.Subset.trans (hsub e _ _ he) (ih hrest)

/-- What is bound stays bound. -/
theorem subset_of_after? (h : after? g depth id bound = some bound') : bound ⊆ bound' := by
  induction depth generalizing id bound bound' with
  | zero => exact Option.some.inj h ▸ List.Subset.refl _
  | succ depth ih =>
    rcases after?_cases h with ⟨_, -, rfl, -⟩ | ⟨label, e, -, rfl, -⟩ | ⟨-, -, hall⟩
    · exact List.Subset.refl _
    · exact List.subset_append_right _ _
    · exact subset_of_forall (fun _ _ _ => ih) hall

theorem subset_of_afterAll? (h : afterAll? g depth es bound = some bound') : bound ⊆ bound' :=
  subset_of_forall (fun _ _ _ => subset_of_after?) h

/-- Nodes that share a scope are gone through one after the other. -/
theorem afterAll?_append_cons {before after : List NodeId} {e : NodeId}
    (h : afterAll? g depth (before ++ e :: after) bound = some bound') :
    ∃ start, afterAll? g depth before bound = some start ∧
      ∃ stop, after? g depth e start = some stop ∧ afterAll? g depth after stop = some bound' := by
  rw [afterAll?, List.foldlM_append] at h
  obtain ⟨start, hbefore, h⟩ := Option.bind_eq_some_iff.mp h
  obtain ⟨stop, he, hafter⟩ := Option.bind_eq_some_iff.mp (List.foldlM_cons.symm.trans h)
  exact ⟨start, hbefore, stop, he, hafter⟩

/-! ## What the check finds -/

theorem length_le_bind (rule : Nat) (location : Option Location) (label : String) (s : Found) :
    s.1.length ≤ (bind rule location label s).1.length := by
  by_cases h : label ∈ s.2
  · simp [bind, h]
  · simp [bind, h]

theorem length_le_foldl {f : NodeId → Found → Found} (hf : ∀ e s, s.1.length ≤ (f e s).1.length)
    (es : List NodeId) (s : Found) :
    s.1.length ≤ (es.foldl (fun s e => f e s) s).1.length := by
  induction es generalizing s with
  | nil => exact Nat.le_refl _
  | cons e es ih => exact (hf e s).trans (ih (f e s))

/-- What was found stays found. -/
theorem length_le_check (g : Grammar) (rule depth : Nat) (id : NodeId) (s : Found) :
    s.1.length ≤ (check g rule depth id s).1.length := by
  induction depth generalizing id s with
  | zero => exact Nat.le_refl _
  | succ depth ih =>
    rw [check]
    split
    · exact length_le_foldl (f := fun e => forked (check g rule depth e)) (fun e s => ih e s) _ s
    · next label e _ =>
      have hforked : s.1.length ≤ (forked (check g rule depth e) s).1.length := ih e s
      cases label with
      | none => exact hforked
      | some label => exact hforked.trans (length_le_bind _ _ _ _)
    · exact length_le_foldl ih _ s

/-- Alternatives in which nothing is found leave the scope as it is. -/
theorem foldl_forked {f : NodeId → Found → Found}
    (h : ∀ e ∈ es, ∃ inner, f e (found, bound) = (found, inner)) :
    es.foldl (fun s e => forked (f e) s) (found, bound) = (found, bound) := by
  induction es with
  | nil => rfl
  | cons e rest ih =>
    obtain ⟨⟨inner, he⟩, hrest⟩ := List.forall_mem_cons.mp h
    rw [List.foldl_cons, forked, he]
    exact ih hrest

theorem foldl_of_afterAll? (h : ∀ e bound bound', after? g depth e bound = some bound' →
      check g rule depth e (found, bound) = (found, bound'))
    (hall : afterAll? g depth es bound = some bound') :
    es.foldl (fun s e => check g rule depth e s) (found, bound) = (found, bound') := by
  induction es generalizing bound with
  | nil => rw [List.foldl_nil, Option.some.inj hall]
  | cons e rest ih =>
    rw [afterAll?_cons] at hall
    obtain ⟨next, he, hrest⟩ := Option.bind_eq_some_iff.mp hall
    rw [List.foldl_cons, h e bound next he]
    exact ih hrest

/-- Where no label is bound a second time, the check finds nothing. -/
theorem check_of_after? (h : after? g depth id bound = some bound') :
    check g rule depth id (found, bound) = (found, bound') := by
  induction depth generalizing id bound bound' with
  | zero =>
    rw [after?, Option.some.injEq] at h
    rw [check, h]
  | succ depth ih =>
    rw [check]
    rcases after?_cases h with ⟨alternatives, hshape, rfl, hall⟩ |
      ⟨label, e, hshape, rfl, ⟨inner, hinner⟩, hnot⟩ | ⟨hchoice, hlabeled, hall⟩
    · rw [hshape]
      exact foldl_forked fun e he => (hall e he).imp fun _ => ih
    · rw [hshape]
      cases label with
      | none => simp only [forked, ih hinner, Option.toList_none, List.nil_append]
      | some label =>
        have hlabel : label ∉ bound := hnot label rfl
        simp [forked, ih hinner, bind, hlabel]
    · split
      · next hshape => exact absurd hshape (hchoice _)
      · next hshape => exact absurd hshape (hlabeled _ _)
      · exact foldl_of_afterAll? (fun _ _ _ => ih) hall

section

variable (h : ∀ e bound, (check g rule depth e (found, bound)).1.length ≤ found.length →
  ∃ bound', after? g depth e bound = some bound')
include h

/-- If nothing is found in alternatives, nothing is found in each of them. -/
theorem after?_of_foldl_forked (hfold : (es.foldl (fun s e => forked (check g rule depth e) s)
    (found, bound)).1.length ≤ found.length) : ∀ e ∈ es, (after? g depth e bound).isSome := by
  induction es with
  | nil => exact nofun
  | cons e rest ih =>
    rw [List.foldl_cons] at hfold
    have hle := length_le_foldl (f := fun e => forked (check g rule depth e))
      (fun e s => length_le_check g rule depth e s) rest
      (forked (check g rule depth e) (found, bound))
    obtain ⟨inner, he⟩ := h e bound (hle.trans hfold)
    rw [forked, check_of_after? he] at hfold
    exact List.forall_mem_cons.mpr ⟨Option.isSome_iff_exists.mpr ⟨inner, he⟩, ih hfold⟩

theorem afterAll?_of_foldl (hfold : (es.foldl (fun s e => check g rule depth e s)
    (found, bound)).1.length ≤ found.length) :
    ∃ bound', afterAll? g depth es bound = some bound' := by
  induction es generalizing bound with
  | nil => exact ⟨bound, rfl⟩
  | cons e rest ih =>
    rw [List.foldl_cons] at hfold
    have hle := length_le_foldl (length_le_check g rule depth) rest
      (check g rule depth e (found, bound))
    obtain ⟨next, he⟩ := h e bound (hle.trans hfold)
    rw [check_of_after? he] at hfold
    rw [afterAll?_cons, he]
    exact ih hfold

end

/-- Where the check finds nothing, no label is bound a second time. -/
theorem after?_of_check (h : (check g rule depth id (found, bound)).1.length ≤ found.length) :
    ∃ bound', after? g depth id bound = some bound' := by
  induction depth generalizing id bound with
  | zero => exact ⟨bound, rfl⟩
  | succ depth ih =>
    rw [check] at h
    rw [after?]
    split
    · next alternatives hshape =>
      rw [hshape] at h
      exact ⟨bound, if_pos (after?_of_foldl_forked (fun _ _ => ih) h)⟩
    · next label e hshape =>
      rw [hshape] at h
      dsimp only at h
      have hle : (check g rule depth e (found, bound)).1.length ≤ found.length := by
        refine Nat.le_trans ?_ h
        cases label with
        | none => exact Nat.le_refl _
        | some label =>
          exact length_le_bind rule _ label (forked (check g rule depth e) (found, bound))
      obtain ⟨inner, he⟩ := ih hle
      rw [forked, check_of_after? he] at h
      refine ⟨label.toList ++ bound, if_pos ⟨Option.isSome_iff_exists.mpr ⟨inner, he⟩, ?_⟩⟩
      -- A label that is bound already would be found.
      rintro label rfl hmem
      simp [bind, hmem] at h
    · next hchoice hlabeled =>
      split at h
      · next hshape => exact absurd hshape (hchoice _)
      · next hshape => exact absurd hshape (hlabeled _ _)
      · exact afterAll?_of_foldl (fun _ _ => ih) h

/-! ## Trees of the same expressions -/

theorem afterAll?_congr (h : ∀ e ∈ es, ∀ bound, after? g' depth' e bound = after? g depth e bound)
    (bound : List String) : afterAll? g' depth' es bound = afterAll? g depth es bound := by
  induction es generalizing bound with
  | nil => rfl
  | cons e rest ih =>
    obtain ⟨he, hrest⟩ := List.forall_mem_cons.mp h
    rw [afterAll?_cons, afterAll?_cons, he]
    exact congrArg _ (funext (ih hrest))

/-- It does not matter what references name. -/
theorem after?_congr {call : String → String → Prop} (hin : g.Within depth id)
    (hin' : g'.Within depth' id)
    (hshapes : ∀ x, g.Below id x → (g.shape x).Renames call (g'.shape x)) (bound : List String) :
    after? g' depth' id bound = after? g depth id bound := by
  induction depth generalizing depth' id bound with
  | zero => exact hin.elim
  | succ depth ih =>
    obtain ⟨depth', rfl⟩ := hin'.exists_succ
    have hroot := hshapes id .refl
    have hchildren : g'.children id = g.children id := hroot.children_eq
    have hbelow (e : NodeId) (he : e ∈ (g.shape id).children) (bound : List String) :
        after? g' depth' e bound = after? g depth e bound :=
      ih (hin.2 e he) (hin'.2 e (hchildren ▸ he)) (fun x hx => hshapes x (hx.head he)) bound
    clear ih hin hin' hshapes hchildren
    -- Only references differ, and they have no children and bind nothing.
    rw [after?, after?]
    generalize g'.shape id = s' at hroot
    generalize g.shape id = s at hroot hbelow
    cases hroot with
    | ruleRef => rfl
    | same hs =>
      clear hs
      cases s'
      case choice alternatives =>
        have hall : (∀ e ∈ alternatives, (after? g' depth' e bound).isSome) ↔
            ∀ e ∈ alternatives, (after? g depth e bound).isSome :=
          forall₂_congr fun e he => by rw [hbelow e he]
        simp only [hall]
      case labeled label e => simp only [hbelow e (List.mem_singleton_self e)]
      all_goals exact afterAll?_congr hbelow bound

end LabelScope

namespace Grammar

variable {g g' : Grammar} {root : NodeId} {r : Rule}

/-- No label is bound twice in one scope of the expression of a rule. -/
def BindsOnce (g : Grammar) (r : Rule) : Prop :=
  ∃ bound, LabelScope.after? g g.depthBound r.expression [] = some bound

/-- The check finds nothing if no label is bound twice in one scope. -/
theorem duplicateLabels_eq_nil : g.duplicateLabels = [] ↔ ∀ r ∈ g.rules, g.BindsOnce r := by
  rw [duplicateLabels, List.flatMap_eq_nil_iff]
  constructor
  · intro h r hr
    obtain ⟨index, hindex⟩ := List.mem_iff_getElem?.mp hr
    have hnone : g.duplicateLabelsOf index r = [] :=
      h (r, index) (List.mem_zipIdx_iff_getElem?.mpr hindex)
    exact LabelScope.after?_of_check (Nat.le_of_eq (congrArg List.length hnone))
  · rintro h ⟨r, index⟩ hmem
    obtain ⟨bound, hbound⟩ := h r (List.mem_of_getElem? (List.mem_zipIdx_iff_getElem?.mp hmem))
    change (LabelScope.check g index g.depthBound r.expression ([], [])).1 = []
    rw [LabelScope.check_of_after? hbound]

/-- A label on the root of a rule is not bound by anything around it. -/
theorem bindsOnce_iff_of_stems {index : Nat} (hroot : g.Stems index root) (htrees : g.HasTrees) :
    ∃ r, g.rules[index]? = some r ∧ ∃ depth, g.Within depth root ∧
      (g.BindsOnce r ↔ ∃ bound, LabelScope.after? g depth root [] = some bound) := by
  obtain ⟨r, hr, hroot⟩ := hroot
  have hin : g.Within g.depthBound r.expression := (htrees r (List.mem_of_getElem? hr)).within
  refine ⟨r, hr, ?_⟩
  rcases hroot with rfl | ⟨label, hshape⟩
  · exact ⟨_, hin, .rfl⟩
  · have hchild : root ∈ g.children r.expression := by
      rw [children, hshape]
      exact List.mem_singleton_self root
    refine ⟨g.nodes.size, hin.2 root hchild, ?_⟩
    rw [BindsOnce, depthBound, LabelScope.after?, hshape]
    simp [Option.isSome_iff_exists]

theorem BindsOnce.of_sameBody {call : String → String → Prop} {i i' : Nat} {r' : Rule}
    (h : ∀ r ∈ g.rules, g.BindsOnce r) (htrees : g.HasTrees) (htrees' : g'.HasTrees)
    (hbody : Peg.SameBody call g g' i i') (hr' : g'.rules[i']? = some r') : g'.BindsOnce r' := by
  obtain ⟨root, hroot, hroot', hshapes⟩ := hbody
  obtain ⟨r, hr, depth, hin, hiff⟩ := bindsOnce_iff_of_stems hroot htrees
  obtain ⟨s, hs, depth', hin', hiff'⟩ := bindsOnce_iff_of_stems hroot' htrees'
  rw [hr'] at hs
  obtain rfl := Option.some.inj hs
  rw [hiff', LabelScope.after?_congr hin hin' hshapes]
  exact hiff.mp (h r (List.mem_of_getElem? hr))

theorem BindsOnce.removeRules (h : g.BindsOnce r) (htrees : g.HasTrees) (indices : List Nat)
    (hr : r ∈ (g.removeRules indices).rules) : (g.removeRules indices).BindsOnce r := by
  have hin : g.Within g.depthBound r.expression := (htrees r (mem_of_mem_removeRules hr)).within
  have hin' : (g.removeRules indices).Within g.depthBound r.expression :=
    (htrees.removeRules indices r hr).within
  rw [BindsOnce, show (g.removeRules indices).depthBound = g.depthBound from rfl,
    LabelScope.after?_congr hin hin' fun x _ => .of_eq (fun _ => rfl) _]
  exact h

/-- Labels are bound once in rules that have their places from before. -/
theorem bindsOnce_of_counterparts {call : String → String → Prop}
    (hsame : Peg.Counterparts g g' (Peg.Same g) call) (hlength : g'.rules.length = g.rules.length)
    (h : ∀ r ∈ g.rules, g.BindsOnce r) : ∀ r ∈ g'.rules, g'.BindsOnce r := by
  intro r' hr'
  obtain ⟨i, hi⟩ := List.mem_iff_getElem?.mp hr'
  have hlt : i < g.rules.length := hlength ▸ (List.getElem?_eq_some_iff.mp hi).1
  have hpair : Peg.Same g i i := ⟨rfl, _, List.getElem?_eq_getElem hlt⟩
  exact .of_sameBody h hsame.trees hsame.trees' (hsame.body hpair) hi

end Grammar

namespace Session

variable {s : Session}

/-- Where no label is bound twice in one scope, none is once proxies are taken out. -/
theorem bindsOnce_elideProxies (hplain : s.grammar.Plain)
    (h : ∀ r ∈ s.grammar.rules, s.grammar.BindsOnce r) :
    ∀ r ∈ s.elideProxies.grammar.rules, s.elideProxies.grammar.BindsOnce r := by
  obtain ⟨htrees, hbinds⟩ := reduceProxies_grammar_induct (s := s)
    (P := fun g => ∀ r ∈ g.rules, g.BindsOnce r) hplain.trees
    (fun r hr _ _ => hplain.onTop r hr) h
    (fun htrees hbinds _ _ _ =>
      Grammar.bindsOnce_of_counterparts (Peg.counterparts_redirect htrees _ _) rfl hbinds)
    fun htrees hpicks hbinds hlabel =>
      have hlength := congrArg List.length (Grammar.headers_labelRoot hlabel)
      Grammar.bindsOnce_of_counterparts (Peg.counterparts_labelRoot htrees hpicks hlabel)
        (by simpa using hlength) hbinds
  rw [elideProxies_grammar]
  exact fun r hr => (hbinds r (Grammar.mem_of_mem_removeRules hr)).removeRules htrees _ hr

end Session

end PegMachine
