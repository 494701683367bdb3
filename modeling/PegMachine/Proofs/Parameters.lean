import PegMachine.Proofs.Collecting

/-!
# Parameters of actions

Where the check for duplicate labels finds nothing, no label is bound that is in scope already, also
once proxies are taken out. So code is generated as it would be if that was an error, and as the
actions that are collected then are those that the code of the grammar needs, each parameter of an
action is the label of one node.
-/

namespace PegMachine

namespace Generate

variable {α β : Type} {g : Grammar} {f : Facts} {id : NodeId} {es seen : List NodeId}
  {scope : Scope} {height depth : Nat} {action? : Option String}

/-- Code for a node as it is generated, but none where a label is bound that is in scope already. -/
def strict (e : GenerateError) (g : Grammar) (f : Facts) :
    Nat → NodeId → (height : Nat) → Scope → (action? : Option String) → Generate (Code × Scope)
  | 0, _, _, scope, _ => return ([], scope)
  | depth + 1, id, height, scope, action? =>
    if ∃ label ∈ g.label? id, label ∈ scope.labels then fail e
    else level g f (strict e g f depth) id height scope action?

theorem strict_covers {e : GenerateError} (hin : g.Within depth id)
    (hscope : scope.labels = g.labels seen) :
    Covers g id seen action? (strict e g f depth id height scope action?) := by
  induction depth generalizing id height scope seen action? with
  | zero => exact hin.elim
  | succ depth ih =>
    rw [strict]
    split
    · exact fun _ _ _ h => nomatch h
    · next hfresh =>
      exact level_covers (fun x hx height scope seen action? hscope => ih (hin.2 x hx) hscope)
        hscope fun label hlabel hmem => hfresh ⟨label, hlabel, hmem⟩

/-! ## The same code -/

theorem bind_congr_of_ensures {Q : α → Prop} {m : Generate α} {k k' : α → Generate β}
    (hm : Ensures Q m) (h : ∀ a, Q a → k a = k' a) : m >>= k = m >>= k' := by
  funext p
  change (m p >>= fun r => k r.1 r.2) = m p >>= fun r => k' r.1 r.2
  cases hr : m p with
  | error e => rfl
  | ok r =>
    have hk : k r.1 = k' r.1 := h r.1 (hm p r.1 r.2 hr)
    exact congrFun hk r.2

theorem mapM_congr {k k' : α → Generate β} {as : List α} (h : ∀ a ∈ as, k a = k' a) :
    as.mapM k = as.mapM k' := by
  induction as with
  | nil => rfl
  | cons a as ih =>
    obtain ⟨ha, has⟩ := List.forall_mem_cons.mp h
    rw [List.mapM_cons, List.mapM_cons, ha, ih has]

theorem elements_congr {node node' : NodeId → Nat → Scope → Generate (Code × Scope)}
    (h : ∀ before x after, es = before ++ x :: after → ∀ height scope,
      scope.labels = g.labels (seen ++ before) → node x height scope = node' x height scope ∧
        Ensures (fun r => r.2.labels = g.labels (seen ++ before ++ [x])) (node x height scope))
    (hscope : scope.labels = g.labels seen) :
    elements node es height scope = elements node' es height scope := by
  induction es generalizing seen height scope with
  | nil => rfl
  | cons x rest ih =>
    obtain ⟨hsame, hleft⟩ := h [] x rest rfl height scope (by rwa [List.append_nil])
    rw [elements, elements, ← hsame]
    refine bind_congr_of_ensures hleft fun r hr => ?_
    dsimp only
    rw [List.append_nil] at hr
    rw [ih (fun before y after hes height scope hscope => ?_) hr]
    subst hes
    have hy := h (x :: before) y after rfl height scope (by rwa [List.append_cons])
    rwa [List.append_cons seen x before] at hy

/-- Code for a node is the same if code for its children is the same in the scopes that they are
in. -/
theorem level_congr {below below' : NodeId → Nat → Scope → Option String → Generate (Code × Scope)}
    (h : ∀ x seen', g.Hands id seen x seen' → ∀ height scope action?,
      scope.labels = g.labels seen' → below x height scope action? = below' x height scope action? ∧
        Ensures (fun r => r.2.labels = g.labels (seen' ++ behind g x action?))
          (below x height scope action?))
    (hscope : scope.labels = g.labels seen) :
    level g f below id height scope action? = level g f below' id height scope action? := by
  have hsingle {s : Shape} {x : NodeId} (hshape : g.shape id = s) (hs : s.singleChild? = some x)
      (height : Nat) (action? : Option String) :
      below x height scope action? = below' x height scope action? :=
    (h x seen (Grammar.hands_of_singleChild? (hshape ▸ hs) seen) height scope action? hscope).1
  rw [level, level]
  cases hshape : g.shape id with
  | choice alternatives =>
    have hall : (alternatives.mapM fun x => (·.1) <$> below x height scope none) =
        alternatives.mapM fun x => (·.1) <$> below' x height scope none := by
      refine mapM_congr fun x hx => congrArg _ (h x seen ?_ height scope none hscope).1
      simp only [Grammar.Hands, Grammar.children, hshape]
      exact ⟨hx, trivial⟩
    simp only [hall]
  | sequence es =>
    have hall : elements (fun x height scope => below x height scope none) es (height + 1) scope =
        elements (fun x height scope => below' x height scope none) es (height + 1) scope := by
      refine elements_congr (fun before x after hes height scope hscope => ?_) hscope
      refine h x (seen ++ before) ?_ height scope none hscope
      simp only [Grammar.Hands, hshape]
      exact ⟨before, after, hes, rfl⟩
    simp only [hall]
  | range min max x delimiter =>
    dsimp only
    split
    · rfl
    · next hsome =>
      have hisolated {y : NodeId} (hy : y ∈ x :: delimiter.toList) (height : Nat) :
          below y height [] none = below' y height [] none := by
        refine (h y [] ?_ height [] none rfl).1
        simp only [Grammar.Hands, Grammar.children, hshape]
        exact ⟨hsome, hy, trivial⟩
      cases delimiter with
      | none => simp only [hisolated List.mem_cons_self]
      | some d =>
        have hd : d ∈ x :: (some d).toList := List.mem_cons_of_mem _ (List.mem_singleton_self d)
        simp only [hisolated List.mem_cons_self, hisolated hd]
  | named name x => simp only [hsingle hshape rfl]
  | action x source => simp only [hsingle hshape rfl]
  | labeled label x => simp only [hsingle hshape rfl]
  | text x => simp only [hsingle hshape rfl]
  | simpleAnd x => simp only [hsingle hshape rfl]
  | simpleNot x => simp only [hsingle hshape rfl]
  | optional x => simp only [hsingle hshape rfl]
  | zeroOrMore x => simp only [hsingle hshape rfl]
  | oneOrMore x => simp only [hsingle hshape rfl]
  | _ => rfl

/-- The check for duplicate labels goes through a node with all labels bound that are in scope, so
none that is in scope is bound again. -/
theorem strict_eq {e : GenerateError} {bound bound' : List String} (hin : g.Within depth id)
    (hafter : LabelScope.after? g depth id bound = some bound') (hseen : g.BoundApart seen bound)
    (hscope : scope.labels = g.labels seen) :
    strict e g f depth id height scope action? = node g f depth id height scope action? := by
  induction depth generalizing id bound bound' seen height scope action? with
  | zero => exact hin.elim
  | succ depth ih =>
    have hfresh : ¬∃ label ∈ g.label? id, label ∈ scope.labels := by
      rintro ⟨label, hlabel, hmem⟩
      have hnodup := (hseen.snoc hin hafter).nodup
      rw [Grammar.labels_snoc, Option.mem_def.mp hlabel, List.nodup_append, ← hscope] at hnodup
      exact hnodup.2.2 label hmem label (Option.mem_toList.mpr rfl) rfl
    rw [strict, if_neg hfresh, node]
    refine level_congr (fun x seen' hx height scope action? hscope => ?_) hscope
    have hin' := hin.2 x hx.mem_children
    obtain ⟨start, stop, hstop, hstart⟩ := hx.exists_after? hin hafter hseen
    exact ⟨ih hin' hstop hstart hscope, fun p r q h => (strict_covers hin' hscope p r q h).1⟩

/-! ## Rules -/

section

variable {r : Rule} (htree : g.Tree r.expression) (h : g.BindsOnce r)
include htree h

theorem strict_root (e : GenerateError) : strict e g f g.depthBound r.expression 0 [] none =
    node g f g.depthBound r.expression 0 [] none := by
  obtain ⟨bound, hbound⟩ := h
  exact strict_eq htree.within hbound .nil rfl

theorem collects_rule : Collects (g.needed r.expression []) (fun _ => True) (rule g f r) := by
  have hnode : Covers g r.expression [] none (node g f g.depthBound r.expression 0 [] none) :=
    strict_root (f := f) htree h (.unresolved r.name) ▸ strict_covers htree.within rfl
  rw [Covers, ending_none, Set.union_empty] at hnode
  refine hnode.before fun c => ?_
  dsimp only
  split
  · exact silent_pure _
  · exact silent_fail _

end

end Generate

/-- The actions of a grammar in which no label is bound twice in one scope are those that its code
needs. -/
theorem Facts.mem_actions {f : Facts} {g : Grammar} {c : Generated} (htrees : g.HasTrees)
    (h : ∀ r ∈ g.rules, g.BindsOnce r) (hc : f.generate g = .ok c) {a : Program.Action} :
    a ∈ c.pools.actions ↔ ∃ r ∈ g.rules, a ∈ g.needed r.expression [] := by
  have hrules := Generate.Collects.mapM fun r hr =>
    Generate.collects_rule (f := f) (htrees r hr) (h r hr)
  rw [(hrules _ _ _ (Facts.generate_eq_ok hc)).2 a]
  simp

/-- Labels do not clash in a grammar for which the check for duplicate labels finds nothing, nor
once proxies are taken out of it. Code is generated for it as it would be if it was an error to bind
a label that is in scope already, whatever that error is. Each label that some code sees is carried
by exactly one of the nodes in its scope, and the actions that are collected have the labels that
their code sees as parameters. -/
theorem Session.labels_apart (s : Session) (hplain : s.grammar.Plain)
    (hnone : s.grammar.duplicateLabels = []) (f : Facts) {g : Grammar}
    (hg : g = s.grammar ∨ g = s.elideProxies.grammar) :
    (∀ r ∈ g.rules, ∀ e, Generate.strict e g f g.depthBound r.expression 0 [] none =
      Generate.node g f g.depthBound r.expression 0 [] none) ∧
    (∀ r ∈ g.rules, ∀ source nodes, g.Sees r.expression [] source nodes →
      (g.labels nodes).Nodup ∧
        ∀ label ∈ g.labels nodes, ∃! id, id ∈ nodes ∧ g.label? id = some label) ∧
    ∀ c, f.generate g = .ok c → ∀ a, a ∈ c.pools.actions ↔
      ∃ r ∈ g.rules, ∃ nodes, g.Sees r.expression [] a.code nodes ∧ a.params = g.labels nodes := by
  have honce := Grammar.duplicateLabels_eq_nil.mp hnone
  obtain ⟨htrees, hbinds⟩ : g.HasTrees ∧ ∀ r ∈ g.rules, g.BindsOnce r := by
    rcases hg with rfl | rfl
    · exact ⟨hplain.trees, honce⟩
    · exact ⟨hasTrees_elideProxies hplain.trees, bindsOnce_elideProxies hplain honce⟩
  refine ⟨fun r hr => Generate.strict_root (htrees r hr) (hbinds r hr),
    fun r hr source nodes hsees => ?_, fun c hc a => Facts.mem_actions htrees hbinds hc⟩
  obtain ⟨bound, hbound⟩ := hbinds r hr
  have hnodup := hsees.nodup (htrees r hr).within hbound .nil
  exact ⟨hnodup, fun label => Grammar.existsUnique_of_nodup hnodup⟩

/-- A pair of characters. The rule `first` stands for `letter`, under the label that the pair has
for it, and both alternatives for the second character bind the same label. -/
def labelledPair : GrammarSource where
  rules := [
    ⟨"pair", .of (.action (.of (.sequence [
      .of (.labeled (some "a") (.of (.ruleRef "first"))),
      .of (.choice [
        .of (.action (.of (.labeled (some "b") (.of .any))) "left"),
        .of (.action (.of (.labeled (some "b") (.of (.literal "x" false)))) "right")]),
      .of (.semanticAnd "check")])) "join"), [], none⟩,
    ⟨"first", .of (.labeled (some "a") (.of (.ruleRef "letter"))), [], none⟩,
    ⟨"letter", .of (.action (.of .any) "keep"), [], none⟩]

/-- The label of the proxy is put on the rule that it stands for, and clashes with none there. -/
theorem labelledPair_apart :
    let s := (check (.ofSource labelledPair) {} 0).2
    let left := s.elideProxies.grammar
    let f := s.elideProxies.facts
    s.grammar.Plain ∧ s.grammar.duplicateLabels = [] ∧
      left.rules.map (fun r => (r.name, left.label? r.expression)) =
        [("pair", none), ("letter", some "a")] ∧
      (∀ r ∈ left.rules, ∀ e, Generate.strict e left f left.depthBound r.expression 0 [] none =
        Generate.node left f left.depthBound r.expression 0 [] none) ∧
      ∃ c, f.generate left = .ok c ∧
        c.pools.actions = #[⟨["a", "b"], "left"⟩, ⟨["a", "b"], "right"⟩, ⟨["a"], "check"⟩,
          ⟨["a"], "join"⟩, ⟨[], "keep"⟩] ∧
      ∃ r ∈ left.rules, ∃ nodes, left.Sees r.expression [] "right" nodes ∧
        left.labels nodes = ["a", "b"] ∧
        ∃! id, id ∈ nodes ∧ left.label? id = some "b" := by
  intro s left f
  have hgrammar : s.grammar = .ofSource labelledPair := by decide +kernel
  have hplain : s.grammar.Plain := hgrammar ▸ Grammar.ofSource_plain labelledPair
  have hnone : s.grammar.duplicateLabels = [] := by decide +kernel
  obtain ⟨hstrict, hlabels, hactions⟩ := Session.labels_apart s hplain hnone f (.inr rfl)
  have hgenerate : (f.generate left).toOption.map (·.pools.actions) =
      some #[⟨["a", "b"], "left"⟩, ⟨["a", "b"], "right"⟩, ⟨["a"], "check"⟩, ⟨["a"], "join"⟩,
        ⟨[], "keep"⟩] := by decide +kernel
  obtain ⟨c, hc, hpool⟩ := Option.map_eq_some_iff.mp hgenerate
  have hok : f.generate left = .ok c := by
    clear hgenerate
    generalize f.generate left = out at hc ⊢
    cases out with
    | error e => cases hc
    | ok c' => rw [Option.some.inj hc]
  have hright : (⟨["a", "b"], "right"⟩ : Program.Action) ∈ c.pools.actions := by simp [hpool]
  obtain ⟨r, hr, nodes, hsees, hparams⟩ := (hactions c hok _).mp hright
  refine ⟨hplain, hnone, by decide +kernel, hstrict, c, hok, hpool, r, hr, nodes, hsees,
    hparams.symm, ?_⟩
  exact (hlabels r hr "right" nodes hsees).2 "b" (hparams ▸ by decide)

end PegMachine
