import PegMachine.Proofs.Trees

/-!
# Reading an arena back

An arena is read back as nested expressions, node by node. What is read from a grammar that was
flattened is what was written down, but for the source texts of classes and regular expressions:
where there was none, the standard one was filled in. So the nodes below the root of a rule stand for
the parts of its expression, each of them at the place of its part.
-/

namespace PegMachine

/-! ## Nested expressions -/

namespace Expr

/-- What an expression is. -/
def form : Expr → Form
  | .mk form _ => form

/-- The place of an expression in the text of the grammar. -/
def location : Expr → Option Location
  | .mk _ location => location

/-- The expressions that an expression is directly made of, in order. -/
def Form.operands : Form → List Expr
  | .choice es => es
  | .sequence es => es
  | .range _ _ e delimiter => e :: delimiter.toList
  | .named _ e => [e]
  | .action e _ => [e]
  | .labeled _ e => [e]
  | .text e => [e]
  | .simpleAnd e => [e]
  | .simpleNot e => [e]
  | .optional e => [e]
  | .zeroOrMore e => [e]
  | .oneOrMore e => [e]
  | _ => []

/-- An expression is part of another one, or is that one. -/
def Below (e : Expr) : Expr → Prop := Relation.ReflTransGen (fun a b => b ∈ a.form.operands) e

mutual

/-- The expression with a source text for each class and each regular expression. -/
def filled : Expr → Expr
  | .mk form location => .mk form.filled location

/-- The form with a source text for each class and each regular expression. -/
def Form.filled : Form → Form
  | .named name e => .named name e.filled
  | .choice es => .choice (filledAll es)
  | .action e code => .action e.filled code
  | .sequence es => .sequence (filledAll es)
  | .labeled label e => .labeled label e.filled
  | .text e => .text e.filled
  | .simpleAnd e => .simpleAnd e.filled
  | .simpleNot e => .simpleNot e.filled
  | .optional e => .optional e.filled
  | .zeroOrMore e => .zeroOrMore e.filled
  | .oneOrMore e => .oneOrMore e.filled
  | .range min max e none => .range min max e.filled none
  | .range min max e (some d) => .range min max e.filled (some d.filled)
  | .charClass parts inverted ignoreCase raw =>
    .charClass parts inverted ignoreCase (raw.getD (classSource parts inverted ignoreCase))
  | .regex value ignoreCase multiLine raw =>
    .regex value ignoreCase multiLine (raw.getD (regexSource value ignoreCase multiLine))
  | form => form

/-- The expressions with a source text for each class and each regular expression. -/
def filledAll : List Expr → List Expr
  | [] => []
  | e :: es => e.filled :: filledAll es

end

theorem filledAll_eq (es : List Expr) : filledAll es = es.map filled := by
  induction es with
  | nil => rfl
  | cons e es ih => rw [filledAll, ih, List.map_cons]

theorem location_filled (e : Expr) : e.filled.location = e.location := by
  cases e
  rfl

/-- Source texts are filled in part by part. -/
theorem operands_filled (e : Expr) : e.filled.form.operands = e.form.operands.map filled := by
  cases e with
  | mk form location =>
    cases form with
    | choice es => exact filledAll_eq es
    | sequence es => exact filledAll_eq es
    | range min max item delimiter => cases delimiter <;> rfl
    | _ => rfl

end Expr

/-- The rule with a source text for each class and each regular expression. -/
def RuleSource.filled (r : RuleSource) : RuleSource :=
  { r with expression := r.expression.filled }

/-- The grammar with a source text for each class and each regular expression. -/
def GrammarSource.filled (source : GrammarSource) : GrammarSource :=
  { source with rules := source.rules.map RuleSource.filled }

/-! ## Reading -/

/-- The form of a node, given what its children are. -/
def Shape.toForm (f : NodeId → Expr) : Shape → Expr.Form
  | .named name e => .named name (f e)
  | .choice es => .choice (es.map f)
  | .action e source => .action (f e) source
  | .sequence es => .sequence (es.map f)
  | .labeled label e => .labeled label (f e)
  | .text e => .text (f e)
  | .simpleAnd e => .simpleAnd (f e)
  | .simpleNot e => .simpleNot (f e)
  | .optional e => .optional (f e)
  | .zeroOrMore e => .zeroOrMore (f e)
  | .oneOrMore e => .oneOrMore (f e)
  | .range min max e delimiter => .range min max (f e) (delimiter.map f)
  | .semanticAnd source => .semanticAnd source
  | .semanticNot source => .semanticNot source
  | .ruleRef name => .ruleRef name
  | .literal value ignoreCase => .literal value ignoreCase
  | .charClass parts inverted ignoreCase raw => .charClass parts inverted ignoreCase (some raw)
  | .regex value ignoreCase multiLine raw => .regex value ignoreCase multiLine (some raw)
  | .any => .any
  | .epsilon => .epsilon
  | .code source => .code source

theorem Shape.operands_toForm (f : NodeId → Expr) (s : Shape) :
    (s.toForm f).operands = s.children.map f := by
  cases s with
  | range min max e delimiter => cases delimiter <;> rfl
  | _ => rfl

/-- The form of a node depends on its children alone. -/
theorem Shape.toForm_congr {f f' : NodeId → Expr} {s : Shape}
    (h : ∀ id ∈ s.children, f id = f' id) : s.toForm f = s.toForm f' := by
  cases s with
  | choice es => exact congrArg Expr.Form.choice (List.map_congr_left h)
  | sequence es => exact congrArg Expr.Form.sequence (List.map_congr_left h)
  | range min max e delimiter =>
    cases delimiter with
    | none => exact congrArg (Expr.Form.range min max · none) (h e List.mem_cons_self)
    | some d =>
      exact congrArg₂ (fun e d => Expr.Form.range min max e (some d)) (h e List.mem_cons_self)
        (h d (List.mem_cons_of_mem _ List.mem_cons_self))
  | _ => simp_all [toForm, children, singleChild?]

namespace Grammar

/-- The expression at a node, given a bound on the depth below it. -/
def toExpr (g : Grammar) : Nat → NodeId → Expr
  | 0, _ => default
  | depth + 1, id => .mk ((g.shape id).toForm (toExpr g depth)) (g.node id).location

/-- The nodes of a grammar are nodes of another one, under the same numbers. -/
structure Extends (g g' : Grammar) : Prop where
  size_le : g.nodes.size ≤ g'.nodes.size
  kept : ∀ id < g.nodes.size, g'.node id = g.node id

variable {g g' : Grammar} {id : NodeId}

theorem Extends.refl (g : Grammar) : g.Extends g := ⟨Nat.le_refl _, fun _ _ => rfl⟩

theorem Extends.trans {g'' : Grammar} (h : g.Extends g') (h' : g'.Extends g'') : g.Extends g'' :=
  ⟨h.size_le.trans h'.size_le,
    fun id hlt => (h'.kept id (hlt.trans_le h.size_le)).trans (h.kept id hlt)⟩

theorem Grows.extends (h : g.Grows g') : g.Extends g' := ⟨h.size_le, h.kept⟩

theorem extends_addNode (g : Grammar) (s : Shape) (location : Option Location) :
    g.Extends (g.addNode s location).2 := by
  refine ⟨(Nat.le_succ _).trans (Array.size_push _).symm.le, fun id hlt => ?_⟩
  rw [node_addNode, if_neg (Nat.ne_of_lt hlt)]

theorem node_addNode_self (g : Grammar) (s : Shape) (location : Option Location) :
    (g.addNode s location).2.node (g.addNode s location).1 = ⟨s, location⟩ := by
  rw [node_addNode]
  exact if_pos rfl

/-- Nodes below a child are within the bound on the depth below its parent. -/
theorem Within.children {depth : Nat} (h : g.Within (depth + 1) id) {s : Shape}
    {location : Option Location} (hnode : g.node id = ⟨s, location⟩) :
    ∀ e ∈ s.children, g.Within depth e := by
  intro e he
  refine h.2 e ?_
  rwa [Grammar.children, shape, hnode]

mutual

/-- An expression that was added is read back, whatever is added later on. -/
theorem toExpr_addExpr (g : Grammar) (e : Expr) {depth : Nat}
    (hext : (g.addExpr e).2.Extends g') (hwithin : g'.Within depth (g.addExpr e).1) :
    g'.toExpr depth (g.addExpr e).1 = e.filled := by
  cases e with
  | mk form location =>
    obtain ⟨depth, rfl⟩ := hwithin.exists_succ
    have hkept : g'.node (g.addExpr (.mk form location)).1 = ⟨(g.addForm form).1, location⟩ :=
      (hext.kept _ (addExpr_grows g (.mk form location)).2.2.le).trans
        (node_addNode_self (g.addForm form).2 (g.addForm form).1 location)
    have hform := toForm_addForm g form ((extends_addNode _ _ location).trans hext)
      (hwithin.children hkept)
    rw [toExpr, shape, hkept, hform]
    rfl

theorem toForm_addForm (g : Grammar) (form : Expr.Form) {depth : Nat}
    (hext : (g.addForm form).2.Extends g')
    (hwithin : ∀ e ∈ (g.addForm form).1.children, g'.Within depth e) :
    (g.addForm form).1.toForm (g'.toExpr depth) = form.filled := by
  have hone (e : Expr) (hext : (g.addExpr e).2.Extends g')
      (hwithin : ∀ id ∈ [(g.addExpr e).1], g'.Within depth id) :
      g'.toExpr depth (g.addExpr e).1 = e.filled :=
    toExpr_addExpr g e hext (hwithin _ (List.mem_singleton_self _))
  cases form with
  | named name e => exact congrArg (Expr.Form.named name) (hone e hext hwithin)
  | action e code => exact congrArg (Expr.Form.action · code) (hone e hext hwithin)
  | labeled label e => exact congrArg (Expr.Form.labeled label) (hone e hext hwithin)
  | text e => exact congrArg Expr.Form.text (hone e hext hwithin)
  | simpleAnd e => exact congrArg Expr.Form.simpleAnd (hone e hext hwithin)
  | simpleNot e => exact congrArg Expr.Form.simpleNot (hone e hext hwithin)
  | optional e => exact congrArg Expr.Form.optional (hone e hext hwithin)
  | zeroOrMore e => exact congrArg Expr.Form.zeroOrMore (hone e hext hwithin)
  | oneOrMore e => exact congrArg Expr.Form.oneOrMore (hone e hext hwithin)
  | choice es => exact congrArg Expr.Form.choice (toExpr_addExprs g es hext hwithin)
  | sequence es => exact congrArg Expr.Form.sequence (toExpr_addExprs g es hext hwithin)
  | range min max e delimiter =>
    cases delimiter with
    | none => exact congrArg (Expr.Form.range min max · none) (hone e hext hwithin)
    | some d =>
      obtain ⟨hitem, hdelimiter⟩ := List.forall_mem_cons.mp hwithin
      have hgrows := (addExpr_grows (g.addExpr e).2 d).1
      exact congrArg₂ (fun e d => Expr.Form.range min max e (some d))
        (toExpr_addExpr g e (hgrows.extends.trans hext) hitem)
        (toExpr_addExpr (g.addExpr e).2 d hext (hdelimiter _ (List.mem_singleton_self _)))
  | semanticAnd code => rfl
  | semanticNot code => rfl
  | ruleRef name => rfl
  | literal value ignoreCase => rfl
  | charClass parts inverted ignoreCase raw => rfl
  | regex value ignoreCase multiLine raw => rfl
  | any => rfl
  | epsilon => rfl
  | code code => rfl

theorem toExpr_addExprs (g : Grammar) (es : List Expr) {depth : Nat}
    (hext : (g.addExprs es).2.Extends g')
    (hwithin : ∀ e ∈ (g.addExprs es).1, g'.Within depth e) :
    (g.addExprs es).1.map (g'.toExpr depth) = Expr.filledAll es := by
  cases es with
  | nil => rfl
  | cons e es =>
    obtain ⟨hfirst, hrest⟩ := List.forall_mem_cons.mp hwithin
    have hgrows := (addExprs_grows (g.addExpr e).2 es).1
    exact congrArg₂ List.cons (toExpr_addExpr g e (hgrows.extends.trans hext) hfirst)
      (toExpr_addExprs (g.addExpr e).2 es hext hrest)

end

/-! ## Grammars -/

/-- The rule as it is written down. -/
def ruleSource (g : Grammar) (r : Rule) : RuleSource :=
  ⟨r.name, g.toExpr g.depthBound r.expression, r.annotations, r.location⟩

/-- The grammar as nested expressions. -/
def toSource (g : Grammar) : GrammarSource where
  rules := g.rules.map g.ruleSource
  initializer := g.initializer

theorem extends_addRule (g : Grammar) (rs : RuleSource) : g.Extends (g.addRule rs) :=
  let h := (addExpr_grows g rs.expression).1
  ⟨h.size_le, h.kept⟩

theorem extends_foldl_addRule (rs : List RuleSource) (g : Grammar) :
    g.Extends (rs.foldl addRule g) := by
  induction rs generalizing g with
  | nil => exact .refl g
  | cons first rest ih => exact (extends_addRule g first).trans (ih _)

/-- Rules that were added are read back, whatever is added later on. -/
theorem ruleSource_addRule (g : Grammar) (rs : RuleSource) (hext : (g.addRule rs).Extends g')
    (hordered : g'.Ordered) : (g.addRule rs).rules = g.rules ++
      [⟨rs.name, (g.addExpr rs.expression).1, rs.annotations, rs.location⟩] ∧
    g'.ruleSource ⟨rs.name, (g.addExpr rs.expression).1, rs.annotations, rs.location⟩ =
      rs.filled := by
  obtain ⟨hgrows, -, hlast⟩ := addExpr_grows g rs.expression
  have hexpr : (g.addExpr rs.expression).2.Extends g' := ⟨hext.size_le, hext.kept⟩
  have htree : g'.Tree (g.addExpr rs.expression).1 :=
    hordered.tree (hlast.le.trans hexpr.size_le)
  refine ⟨?_, ?_⟩
  · simp only [addRule, hgrows.rules]
  · rw [ruleSource, toExpr_addExpr g rs.expression hexpr htree.within]
    rfl

theorem map_ruleSource_foldl (rs : List RuleSource) (g : Grammar)
    (hext : (rs.foldl addRule g).Extends g') (hordered : g'.Ordered) :
    (rs.foldl addRule g).rules.map g'.ruleSource =
      g.rules.map g'.ruleSource ++ rs.map RuleSource.filled := by
  induction rs generalizing g with
  | nil => simp
  | cons first rest ih =>
    have hrest := (extends_foldl_addRule rest (g.addRule first)).trans hext
    obtain ⟨hrules, hread⟩ := ruleSource_addRule g first hrest hordered
    rw [List.foldl_cons, ih _ hext, hrules, List.map_append, List.map_singleton, hread,
      List.append_assoc]
    rfl

theorem initializer_ofSource (source : GrammarSource) :
    (ofSource source).initializer = source.initializer := by
  refine List.foldlRecOn (motive := fun g : Grammar => g.initializer = source.initializer) _ _ rfl
    fun g hg rs _ => ?_
  exact (addExpr_grows g rs.expression).1.initializer.trans hg

/-- What was written down is read back, with source texts filled in. -/
theorem toSource_ofSource (source : GrammarSource) :
    (ofSource source).toSource = source.filled := by
  have hordered := (ofSource_flattened source).ordered
  have hrules : (ofSource source).rules.map (ofSource source).ruleSource =
      source.rules.map RuleSource.filled :=
    map_ruleSource_foldl source.rules { initializer := source.initializer } (.refl _) hordered
  rw [toSource, GrammarSource.filled, initializer_ofSource, hrules]

/-! ## Nodes and parts -/

variable {e x : Expr} {depth : Nat}

/-- A larger bound on the depth makes no difference. -/
theorem toExpr_succ (h : g.Within depth id) : g.toExpr (depth + 1) id = g.toExpr depth id := by
  induction depth generalizing id with
  | zero => exact h.elim
  | succ depth ih =>
    rw [toExpr, Shape.toForm_congr fun e he => ih (h.2 e he), ← toExpr]

/-- A node stands for an expression. -/
structure StandsFor (g : Grammar) (id : NodeId) (e : Expr) : Prop where
  tree : g.Tree id
  read : g.toExpr g.depthBound id = e.filled

theorem StandsFor.location_eq (h : g.StandsFor id e) : (g.node id).location = e.location := by
  rw [← e.location_filled, ← h.read]
  rfl

/-- The children of a node stand for the operands of its expression, one by one. -/
theorem StandsFor.map_children (h : g.StandsFor id e) :
    (g.children id).map (g.toExpr g.depthBound) = e.form.operands.map Expr.filled := by
  have hchildren : ∀ child ∈ g.children id,
      g.toExpr g.depthBound child = g.toExpr g.nodes.size child := fun child hchild =>
    toExpr_succ (h.tree.within.2 child hchild)
  rw [← e.operands_filled, ← h.read, List.map_congr_left hchildren]
  exact (Shape.operands_toForm _ _).symm

theorem StandsFor.tree_child (h : g.StandsFor id e) {child : NodeId}
    (hchild : child ∈ g.children id) : g.Tree child := h.tree.of_below (.single hchild)

/-- Below a node that stands for an expression there is a node for each of its parts. -/
theorem StandsFor.exists_node (h : g.StandsFor id e) (hx : e.Below x) :
    ∃ child, g.Below id child ∧ g.StandsFor child x := by
  induction hx with
  | refl => exact ⟨id, .refl, h⟩
  | @tail a b _ hb ih =>
    obtain ⟨p, hp, ha⟩ := ih
    have hmem := List.mem_map_of_mem (f := Expr.filled) hb
    rw [← ha.map_children] at hmem
    obtain ⟨child, hchild, hread⟩ := List.mem_map.mp hmem
    exact ⟨child, hp.tail hchild, ha.tree_child hchild, hread⟩

/-- Every node below it stands for one of its parts. -/
theorem StandsFor.exists_part (h : g.StandsFor id e) {child : NodeId} (hchild : g.Below id child) :
    ∃ x, e.Below x ∧ g.StandsFor child x := by
  induction hchild with
  | refl => exact ⟨e, .refl, h⟩
  | @tail p child _ hchild ih =>
    obtain ⟨a, ha, hp⟩ := ih
    have hmem := List.mem_map_of_mem (f := g.toExpr g.depthBound) hchild
    rw [hp.map_children] at hmem
    obtain ⟨b, hb, hread⟩ := List.mem_map.mp hmem
    exact ⟨b, ha.tail hb, hp.tree_child hchild, hread.symm⟩

/-- The root of a rule stands for its expression. -/
theorem standsFor_ofSource {source : GrammarSource} {rs : RuleSource} (hrs : rs ∈ source.rules) :
    ∃ r ∈ (ofSource source).rules, r.name = rs.name ∧
      (ofSource source).StandsFor r.expression rs.expression := by
  have hmem : rs.filled ∈ source.filled.rules := List.mem_map_of_mem hrs
  rw [← toSource_ofSource] at hmem
  obtain ⟨r, hr, hread⟩ := List.mem_map.mp hmem
  exact ⟨r, hr, congrArg RuleSource.name hread, ofSource_hasTrees source r hr,
    congrArg RuleSource.expression hread⟩

/-- Nodes stand where their parts do: below a root there is a node for each part of an expression,
and each node there is one for a part. -/
structure Located (g : Grammar) (root : NodeId) (e : Expr) : Prop where
  node : ∀ x, e.Below x → ∃ id, g.Below root id ∧ g.StandsFor id x ∧
    (g.node id).location = x.location
  part : ∀ id, g.Below root id → ∃ x, e.Below x ∧ g.StandsFor id x ∧
    (g.node id).location = x.location

theorem StandsFor.located (h : g.StandsFor id e) : g.Located id e where
  node x hx := by
    obtain ⟨child, hchild, hstands⟩ := h.exists_node hx
    exact ⟨child, hchild, hstands, hstands.location_eq⟩
  part child hchild := by
    obtain ⟨x, hx, hstands⟩ := h.exists_part hchild
    exact ⟨x, hx, hstands, hstands.location_eq⟩

end Grammar

end PegMachine
