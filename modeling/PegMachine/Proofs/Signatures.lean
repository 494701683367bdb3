import PegMachine.Proofs.Collecting
import PegMachine.Proofs.Emitting

/-!
# Signatures of emitted functions

An action has each label once among its parameters, whatever labels are bound. In source text the
labels are written as identifiers, in which different labels may become one; and what the first
parameter is called is not kept free. A function has a parameter twice just if two of the labels
clash or one of them is that name.
-/

namespace PegMachine

namespace Scope

theorem bind_of_mem {scope : Scope} {label : String} (h : label ∈ scope.labels) (slot : Nat) :
    (scope.bind label slot).labels = scope.labels := by
  induction scope with
  | nil => cases h
  | cons first rest ih =>
    obtain ⟨other, s⟩ := first
    rw [bind]
    split
    · rfl
    · next hne =>
      rw [labels, List.map_cons, List.mem_cons] at h
      exact congrArg (other :: ·) (ih (h.resolve_left (Ne.symm hne)))

/-- Binding a label puts none into a scope twice. -/
theorem nodup_bind {scope : Scope} (h : scope.labels.Nodup) (label : String) (slot : Nat) :
    (scope.bind label slot).labels.Nodup := by
  by_cases hmem : label ∈ scope.labels
  · rwa [bind_of_mem hmem]
  · rw [Generate.labels_bind hmem]
    exact h.append (List.nodup_singleton label) (List.disjoint_singleton.mpr hmem)

end Scope

namespace Generate

variable {α β : Type} {U : Set Program.Action} {Q : α → Prop} {R : β → Prop}

/-! ## Actions with each parameter once -/

/-- The actions that are added to the pool have no parameter twice, and what is generated has a
property. -/
def Separates (Q : α → Prop) (m : Generate α) : Prop :=
  ∀ p a q, m p = .ok (a, q) → Q a ∧ ∀ x ∈ q.actions, x ∈ p.actions ∨ x.params.Nodup

theorem Collects.separates {m : Generate α} (h : Collects U Q m) (hU : ∀ x ∈ U, x.params.Nodup) :
    Separates Q m := fun p a q hm => by
  obtain ⟨hQ, hactions⟩ := h p a q hm
  exact ⟨hQ, fun x hx => ((hactions x).mp hx).imp_right (hU x)⟩

theorem Silent.separates {m : Generate α} (h : Silent m) : Separates (fun _ => True) m :=
  h.collects.separates fun _ => False.elim

theorem separates_pure {a : α} (h : Q a) : Separates Q (pure a) :=
  (collects_pure h).separates fun _ => False.elim

namespace Separates

variable {m : Generate α} {f : α → Generate β}

theorem bind (hm : Separates Q m) (hf : ∀ a, Q a → Separates R (f a)) :
    Separates R (m >>= f) := by
  intro p b q hb
  obtain ⟨a, p', ha, hb⟩ := bind_eq_ok.mp hb
  obtain ⟨hQ, hfirst⟩ := hm _ _ _ ha
  obtain ⟨hR, hthen⟩ := hf a hQ _ _ _ hb
  exact ⟨hR, fun x hx => (hthen x hx).elim (hfirst x) .inr⟩

theorem map {f : α → β} (hm : Separates Q m) (hf : ∀ a, Q a → R (f a)) :
    Separates R (f <$> m) := by
  intro p b q hb
  obtain ⟨a, ha, rfl⟩ := map_eq_ok.mp hb
  exact (hm _ _ _ ha).imp_left (hf a)

theorem mapM {γ : Type} {f : γ → Generate β} {as : List γ}
    (hf : ∀ a ∈ as, Separates (fun _ => True) (f a)) :
    Separates (fun _ => True) (as.mapM f) := by
  induction as with
  | nil => exact separates_pure trivial
  | cons a as ih =>
    obtain ⟨ha, has⟩ := List.forall_mem_cons.mp hf
    rw [List.mapM_cons]
    exact ha.bind fun b _ => (ih has).bind fun bs _ => separates_pure trivial

/-- Code that leaves a scope behind. -/
theorem within {m : Generate Code} {Q : Code → Prop} {scope : Scope} (hm : Separates Q m)
    (hscope : scope.labels.Nodup) :
    Separates (fun r : Code × Scope => r.2.labels.Nodup) (do return (← m, scope)) :=
  hm.bind fun _ _ => separates_pure hscope

/-- Code around the code of an expression. -/
theorem wrapped {f : α → Generate Code} {scope : Scope} (hm : Separates Q m)
    (hf : ∀ a, Silent (f a)) (hscope : scope.labels.Nodup) :
    Separates (fun r : Code × Scope => r.2.labels.Nodup)
      (m >>= fun a => do return (← f a, scope)) :=
  hm.bind fun a _ => (hf a).separates.within hscope

end Separates

section

variable {g : Grammar} {f : Facts} {id : NodeId} {es : List NodeId} {scope : Scope}
  {height : Nat} {action? : Option String}

theorem separates_elements {node : NodeId → Nat → Scope → Generate (Code × Scope)}
    (hnode : ∀ e ∈ es, ∀ height (scope : Scope), scope.labels.Nodup →
      Separates (fun r => r.2.labels.Nodup) (node e height scope))
    (hscope : scope.labels.Nodup) :
    Separates (fun r => r.2.labels.Nodup) (elements node es height scope) := by
  induction es generalizing height scope with
  | nil => exact separates_pure hscope
  | cons e rest ih =>
    obtain ⟨he, hrest⟩ := List.forall_mem_cons.mp hnode
    exact (he height scope hscope).bind fun r hr =>
      (ih hrest hr).bind fun rs hrs => separates_pure hrs

/-- Code that runs a source in a scope separates if the scope has no label twice. -/
theorem separates_of_scope {m : Generate α} {source : String} (hscope : scope.labels.Nodup)
    (hm : Collects {⟨scope.labels, source⟩} (fun _ => True) m) : Separates (fun _ => True) m :=
  hm.separates fun _ hx => hx ▸ hscope

variable {below : NodeId → Nat → Scope → Option String → Generate (Code × Scope)}

/-- Code for a node separates if code for its children does. -/
theorem level_separates
    (hbelow : ∀ e height (scope : Scope) action?, scope.labels.Nodup →
      Separates (fun r => r.2.labels.Nodup) (below e height scope action?))
    (hscope : scope.labels.Nodup) :
    Separates (fun r => r.2.labels.Nodup) (level g f below id height scope action?) := by
  have hchild (e : NodeId) (height : Nat) {scope : Scope} (hscope : scope.labels.Nodup) :
      Separates (fun _ => True) ((·.1) <$> below e height scope none) :=
    (hbelow e height scope none hscope).map fun _ _ => trivial
  have hisolated (e : NodeId) (height : Nat) :
      Separates (fun _ => True) ((·.1) <$> below e height [] none) :=
    hchild e height List.nodup_nil
  rw [level]
  -- Only labels add to the scope, and only sequences hand on what was added below them.
  cases g.shape id with
  | action e source =>
    dsimp only
    split
    · exact (hbelow e height scope (some source) hscope).bind fun _ _ => separates_pure hscope
    · exact (hbelow e (height + 1) scope (some source) hscope).bind fun r hr =>
        (separates_of_scope hr (collects_actionAround r.1 source r.2 height)).within hscope
  | sequence es =>
    refine (separates_elements (fun e _ height scope hscope => hbelow e height scope none hscope)
      hscope).bind fun r hr => ?_
    have hend : ∀ x ∈ {a : Program.Action | a.params = r.2.labels ∧ action? = some a.code},
        x.params.Nodup := fun x hx => hx.1 ▸ hr
    refine ((collects_sequenceEnd _ action? r.2 _).separates hend).bind fun tail _ =>
      (silent_nest tail 0 r.1).separates.bind fun code _ => separates_pure ?_
    dsimp only
    split
    · exact hr
    · exact hscope
  | labeled label e =>
    refine (hchild e height hscope).bind fun code _ => separates_pure ?_
    cases label with
    | none => exact hscope
    | some label => exact Scope.nodup_bind hscope label height
  | range min max e delimiter =>
    dsimp only
    split
    · exact separates_pure hscope
    · cases delimiter with
      | none =>
        exact (hisolated e _).wrapped (fun first => silent_range min max first first) hscope
      | some d =>
        exact (hisolated e _).bind fun first _ => (hisolated d _).bind fun between _ =>
          (hisolated e _).bind fun again _ => (silent_delimited between again).separates.wrapped
            (silent_range min max first) hscope
  | choice alternatives =>
    exact (Separates.mapM fun e _ => hchild e height hscope).wrapped silent_choice hscope
  | named name e =>
    exact (silent_constant _).separates.bind fun expected _ =>
      (hchild e height hscope).wrapped (silent_named expected) hscope
  | text e => exact (hchild e _ hscope).wrapped silent_text hscope
  | simpleAnd e => exact (hchild e _ hscope).wrapped (silent_simplePredicate · false) hscope
  | simpleNot e => exact (hchild e _ hscope).wrapped (silent_simplePredicate · true) hscope
  | optional e => exact (hchild e _ hscope).wrapped silent_optional hscope
  | zeroOrMore e => exact (hchild e _ hscope).wrapped silent_zeroOrMore hscope
  | oneOrMore e => exact (hchild e _ hscope).wrapped silent_oneOrMore hscope
  | semanticAnd source =>
    exact (separates_of_scope hscope
      (collects_semanticPredicate source false scope height)).within hscope
  | semanticNot source =>
    exact (separates_of_scope hscope
      (collects_semanticPredicate source true scope height)).within hscope
  | ruleRef name =>
    cases f.target? id with
    | none =>
      intro p r q h
      cases h
    | some rule => exact separates_pure hscope
  | literal value ignoreCase => exact (silent_literal value ignoreCase).separates.within hscope
  | charClass parts inverted ignoreCase raw =>
    exact (silent_charClass parts inverted ignoreCase raw _).separates.within hscope
  | regex value ignoreCase multiLine raw =>
    exact (silent_regex value ignoreCase multiLine raw _).separates.within hscope
  | any =>
    exact (silent_constant _).separates.wrapped (silent_terminal _ _ _) hscope
  | epsilon => exact (silent_constant _).separates.bind fun _ _ => separates_pure hscope
  | code source =>
    exact (separates_of_scope hscope (collects_codeTerminal source scope height)).within hscope

theorem node_separates {depth : Nat} (hscope : scope.labels.Nodup) :
    Separates (fun r => r.2.labels.Nodup) (node g f depth id height scope action?) := by
  induction depth generalizing id height scope action? with
  | zero => exact separates_pure hscope
  | succ depth ih => exact level_separates (fun _ _ _ _ hscope => ih hscope) hscope

theorem rule_separates (r : Rule) : Separates (fun _ => True) (rule g f r) := by
  have hempty : (Scope.labels []).Nodup := List.nodup_nil
  refine (node_separates hempty).bind fun c _ => ?_
  dsimp only
  split
  · exact separates_pure trivial
  · exact (silent_fail _).separates

end

end Generate

/-- No action that code is generated for has a parameter twice. -/
theorem Facts.nodup_params {f : Facts} {g : Grammar} {c : Generated} (hc : f.generate g = .ok c)
    {a : Program.Action} (ha : a ∈ c.pools.actions) : a.params.Nodup := by
  have hrules : Generate.Separates (fun _ => True) (g.rules.mapM (Generate.rule g f)) :=
    .mapM fun r _ => Generate.rule_separates r
  exact ((hrules _ _ _ (Facts.generate_eq_ok hc)).2 a ha).resolve_left (Array.not_mem_empty a)

namespace Emit

open Layout

/-! ## Identifiers -/

/-- A character as it stands in a plain name. -/
theorem replaced_eq {c : Char} (h : (if isNameChar c then c else '_') ≠ '_') :
    (if isNameChar c then c else '_') = c := by
  split at h
  · next hc => rw [if_pos hc]
  · exact absurd rfl h

/-- There are characters of identifiers in a plain name only. -/
theorem mem_plainName {label : String} {c : Char} (h : c ∈ (plainName label).toList) :
    isNameChar c = true ∨ c = '_' := by
  have hreplaced : ∀ d ∈ label.toList.map (fun c => if isNameChar c then c else '_'),
      isNameChar d = true ∨ d = '_' := by
    intro d hd
    obtain ⟨c, -, rfl⟩ := List.mem_map.mp hd
    split
    · next hc => exact .inl hc
    · exact .inr rfl
  unfold plainName at h
  dsimp only at h
  split at h
  · exact .inr (List.mem_singleton.mp h)
  · rw [String.toList_ofList] at h
    split at h
    · exact (List.mem_cons.mp h).elim .inr (hreplaced c)
    · exact hreplaced c h

/-- A label whose plain name has no underscore is that name. -/
theorem eq_of_plainName_eq {label name : String} (h : plainName label = name)
    (hname : '_' ∉ name.toList) : label = name := by
  unfold plainName at h
  dsimp only at h
  split at h
  · exact absurd (by simp [← h]) hname
  · split at h
    · exact absurd (by simp [← h]) hname
    · subst h
      rw [String.toList_ofList] at hname
      refine String.toList_injective (Eq.symm ?_)
      rw [String.toList_ofList]
      exact (List.map_congr_left fun c hc =>
        replaced_eq fun hd => hname (List.mem_map.mpr ⟨c, hc, hd⟩)).trans (List.map_id' _)

/-- Labels that become the same identifier: the same is left of both, or of one of them a word that
cannot be marked and of the other one that word with an underscore. -/
def Clash (l m : String) : Prop :=
  plainName l = plainName m ∨
    (plainName l ∈ pathWords ∧ plainName m = plainName l ++ "_") ∨
    (plainName m ∈ pathWords ∧ plainName l = plainName m ++ "_")

/-- A plain name as an identifier. -/
def marked (name : String) : String :=
  if pathWords.contains name then name ++ "_"
  else if keywords.contains name then "r#" ++ name
  else name

theorem hash_not_mem_plainName (label : String) : '#' ∉ (plainName label).toList := fun h => by
  have hnot : ¬ (isNameChar '#' = true ∨ '#' = '_') := by decide
  exact hnot (mem_plainName h)

/-- No word that cannot be marked is an identifier with an underscore at its end. -/
theorem marked_underscore {name : String} (h : name ∈ pathWords) :
    marked (name ++ "_") = name ++ "_" := by
  revert name
  decide +kernel

/-- How the identifier for a plain name looks. -/
theorem marked_cases (name : String) :
    (name ∈ pathWords ∧ marked name = name ++ "_") ∨
      (name ∉ pathWords ∧ marked name = "r#" ++ name) ∨
      (name ∉ pathWords ∧ marked name = name) := by
  rw [marked]
  by_cases hpath : name ∈ pathWords
  · rw [if_pos (List.contains_iff_mem.mpr hpath)]
    exact .inl ⟨hpath, rfl⟩
  · rw [if_neg (mt List.contains_iff_mem.mp hpath)]
    by_cases hkey : keywords.contains name = true
    · rw [if_pos hkey]
      exact .inr (.inl ⟨hpath, rfl⟩)
    · rw [if_neg hkey]
      exact .inr (.inr ⟨hpath, rfl⟩)

theorem ne_hash {a b : String} (h : '#' ∉ a.toList) : a ≠ "r#" ++ b := by
  rintro rfl
  simp at h

/-- Labels become the same identifier just if they clash. -/
theorem identifier_eq_iff {l m : String} : identifier l = identifier m ↔ Clash l m := by
  change marked (plainName l) = marked (plainName m) ↔ Clash l m
  have hl := hash_not_mem_plainName l
  have hm := hash_not_mem_plainName m
  rw [Clash]
  generalize plainName l = l at *
  generalize plainName m = m at *
  -- A number sign is in raw identifiers only, so these are told from all others.
  have hl' : '#' ∉ (l ++ "_").toList := by simp [hl]
  have hm' : '#' ∉ (m ++ "_").toList := by simp [hm]
  constructor
  · intro h
    rcases marked_cases l with ⟨hpath, hmarked⟩ | ⟨-, hmarked⟩ | ⟨-, hmarked⟩ <;>
      rcases marked_cases m with ⟨hpath', hmarked'⟩ | ⟨-, hmarked'⟩ | ⟨-, hmarked'⟩ <;>
      rw [hmarked, hmarked'] at h
    · exact .inl ((String.append_left_inj "_").mp h)
    · exact absurd h (ne_hash hl')
    · exact .inr (.inl ⟨hpath, h.symm⟩)
    · exact absurd h.symm (ne_hash hm')
    · exact .inl ((String.append_right_inj "r#").mp h)
    · exact absurd h.symm (ne_hash hm)
    · exact .inr (.inr ⟨hpath', h⟩)
    · exact absurd h (ne_hash hl)
    · exact .inl h
  · rintro (rfl | ⟨hpath, rfl⟩ | ⟨hpath, rfl⟩)
    · rfl
    · rw [marked_underscore hpath, marked, if_pos (List.contains_iff_mem.mpr hpath)]
    · rw [marked_underscore hpath, marked, if_pos (List.contains_iff_mem.mpr hpath)]

instance (l m : String) : Decidable (Clash l m) := decidable_of_iff _ identifier_eq_iff

/-- The name of the first parameter is the identifier for no other label. -/
theorem identifier_eq_ctx_iff {label : String} : identifier label = "ctx" ↔ label = "ctx" := by
  constructor
  · intro h
    change marked (plainName label) = "ctx" at h
    rcases marked_cases (plainName label) with ⟨hpath, hmarked⟩ | ⟨-, hmarked⟩ | ⟨-, hmarked⟩ <;>
      rw [hmarked] at h
    · have hne : ∀ word ∈ pathWords, word ++ "_" ≠ "ctx" := by decide
      exact absurd h (hne _ hpath)
    · exact absurd h.symm (ne_hash (by decide))
    · exact eq_of_plainName_eq h (by decide)
  · rintro rfl
    decide +kernel

/-! ## Parameters -/

/-- The parameters of the function of an action with their types. The first one is the context. -/
def parameters (a : Program.Action) : List (String × String) :=
  ("ctx", "&ActionContext<'_>") :: (actionParams a).map fun name => (name, "&Value")

/-- The line that a function starts with. -/
def signature (name : String) (parameters : List (String × String)) (result : String) : String :=
  "fn " ++ name ++ "(" ++ commas (parameters.map fun (name, type) => name ++ ": " ++ type)
    ++ ") -> " ++ result

theorem commas_cons (first : String) (rest : List String) :
    commas (first :: rest) = first ++ String.join (rest.map (", " ++ ·)) := by
  induction rest generalizing first with
  | nil => simp [commas]
  | cons second rest ih =>
    have hrest : commas (first :: second :: rest) = first ++ ", " ++ commas (second :: rest) :=
      String.intercalate_cons_cons
    rw [hrest, ih, List.map_cons, String.join_cons, String.append_assoc, String.append_assoc]

/-- The function of an action starts with its signature. -/
theorem actionFunction_eq (index : Nat) (a : Program.Action) : actionFunction index a =
    [blank] ++ braced (signature s!"action_{index}" (parameters a) "ActionResult")
      (ofText a.code) := by
  have hheading : s!"fn action_{index}(ctx: &ActionContext<'_>" ++
      String.join ((actionParams a).map fun name => ", " ++ name ++ ": &Value") ++
        ") -> ActionResult" = signature s!"action_{index}" (parameters a) "ActionResult" := by
    have htoString (text : String) : toString text = text := rfl
    refine String.toList_injective ?_
    simp [htoString, signature, parameters, commas_cons, String.toList_join, Function.comp_def,
      List.flatMap_map]
  rw [actionFunction, hheading]

/-- No parameter is there twice just if no label is called like the first parameter and no labels
clash. -/
theorem nodup_parameters_iff (a : Program.Action) : ((parameters a).map (·.1)).Nodup ↔
    "ctx" ∉ a.params ∧ a.params.Pairwise fun l m => ¬ Clash l m := by
  have hnames : (parameters a).map (·.1) = "ctx" :: a.params.map identifier := by
    simp [parameters, actionParams]
  have hctx : "ctx" ∈ a.params.map identifier ↔ "ctx" ∈ a.params := by
    simp only [List.mem_map, identifier_eq_ctx_iff, exists_eq_right]
  rw [hnames, List.nodup_cons, hctx, List.Nodup, List.pairwise_map]
  simp only [ne_eq, identifier_eq_iff]

end Emit

/-- Where a compilation is asked for source, the text of each action's function is in it, and starts
with a signature. An action has each of its labels once, and its function each parameter just if
none of the labels is the name of the first parameter and no two of them clash. -/
theorem compile_parameters {g : Grammar} {options : Options} {listeners : Nat}
    {compiled : Compiled} {s : Session}
    (h : compile g options listeners = (.ok compiled, s))
    (hwants : options.output.wants .source = true) :
    ∃ P before after, s.program = some P ∧
      compiled.source = some (before ++ (Emit.actionFunctions P.actions.toList).written ++ after) ∧
      ∀ (index : Nat) (a : Program.Action), P.actions[index]? = some a →
        Emit.actionFunction index a = [Emit.Layout.blank] ++ Emit.Layout.braced
          (Emit.signature s!"action_{index}" (Emit.parameters a) "ActionResult")
          (Emit.Layout.ofText a.code) ∧
        a.params.Nodup ∧
        (((Emit.parameters a).map (·.1)).Nodup ↔
          "ctx" ∉ a.params ∧ a.params.Pairwise fun l m => ¬ Emit.Clash l m) := by
  obtain ⟨P, text, hP, htext, hsource⟩ := emits_of_compile h hwants
  obtain ⟨before, after, rfl⟩ := Emit.source_holds_actions htext
  obtain ⟨p, c, x, haccepted⟩ := compile_eq_ok h
  obtain ⟨code, trace, hcode, hprogram⟩ := haccepted.program
  obtain rfl : P = _ := Option.some.inj (hP.symm.trans hprogram)
  exact ⟨_, before, after, hP, hsource, fun index a ha => ⟨Emit.actionFunction_eq index a,
    Facts.nodup_params hcode (Array.mem_of_getElem? ha), Emit.nodup_parameters_iff a⟩⟩

/-- Actions with labels that stay apart as identifiers, with labels that become one identifier, and
with a label that is called like the first parameter. -/
def labelledActions : GrammarSource where
  rules := [⟨"start", .of (.choice [
    .of (.action (.of (.sequence [
      .of (.labeled (some "left") (.of .any)), .of (.labeled (some "right") (.of .any))])) "pair"),
    .of (.action (.of (.sequence [
      .of (.labeled (some "a-b") (.of .any)), .of (.labeled (some "a_b") (.of .any))])) "same"),
    .of (.action (.of (.labeled (some "ctx") (.of .any))) "context")]), [], none⟩]

/-- Its source text has functions for all of them, of which only the first one has each parameter
once. -/
theorem labelledActions_parameters :
    let pair : Program.Action := ⟨["left", "right"], "pair"⟩
    let same : Program.Action := ⟨["a-b", "a_b"], "same"⟩
    let context : Program.Action := ⟨["ctx"], "context"⟩
    (∃ compiled before after,
      (compile (.ofSource labelledActions) { output := .single .source } 0).1 = .ok compiled ∧
      compiled.source =
        some (before ++ (Emit.actionFunctions [pair, same, context]).written ++ after)) ∧
    ((Emit.parameters pair).map (·.1)).Nodup ∧ ¬ ((Emit.parameters same).map (·.1)).Nodup ∧
      ¬ ((Emit.parameters context).map (·.1)).Nodup := by
  intro pair same context
  have hends : (compile (.ofSource labelledActions) { output := .single .source } 0).1.isOk = true ∧
      (compile (.ofSource labelledActions) { output := .single .source } 0).2.program.map
        (·.actions) = some #[pair, same, context] := by decide +kernel
  obtain ⟨compiled, hcompile⟩ := exists_compiled hends.1
  obtain ⟨P, before, after, hP, hsource, hactions⟩ := compile_parameters hcompile rfl
  have hpool : P.actions = #[pair, same, context] := by
    rw [hP] at hends
    exact Option.some.inj hends.2
  rw [hpool] at hsource hactions
  obtain ⟨-, -, hpair⟩ := hactions 0 pair rfl
  obtain ⟨-, -, hsame⟩ := hactions 1 same rfl
  obtain ⟨-, -, hcontext⟩ := hactions 2 context rfl
  exact ⟨⟨compiled, before, after, congrArg Prod.fst hcompile, hsource⟩,
    hpair.mpr (by decide +kernel), mt hsame.mp (by decide +kernel),
    mt hcontext.mp (by decide +kernel)⟩

end PegMachine
