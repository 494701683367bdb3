import PegMachine.Proofs.Progress
import PegMachine.Proofs.Widening

/-!
# Expressions that must consume something

What has to consume something is the least that the shapes of expressions call for, whatever the
order of the rules. A sweep marks at least one rule more as long as some rule is not marked that
should be, so before bounds are given up all of them are. From then on least numbers never fall, and
no rule is ever marked that need not consume anything.
-/

namespace PegMachine

open Grammar

/-- The node has to consume something whenever it matches. -/
inductive MustConsume (g : Grammar) : NodeId → Prop where
  | literal {id : NodeId} {value : String} {ignoreCase : Bool}
    (hshape : g.shape id = .literal value ignoreCase) (hvalue : value ≠ "") : MustConsume g id
  | charClass {id : NodeId} {parts : List ClassPart} {inverted ignoreCase : Bool} {raw : String}
    (hshape : g.shape id = .charClass parts inverted ignoreCase raw) : MustConsume g id
  | any {id : NodeId} (hshape : g.shape id = .any) : MustConsume g id
  | regex {id : NodeId} {value : String} {ignoreCase multiLine : Bool} {raw : String}
    (hshape : g.shape id = .regex value ignoreCase multiLine raw)
    (hempty : Regex.matchesEmpty? value ignoreCase multiLine = some false) : MustConsume g id
  | named {id e : NodeId} {name : String} (hshape : g.shape id = .named name e)
    (he : MustConsume g e) : MustConsume g id
  | action {id e : NodeId} {code : String} (hshape : g.shape id = .action e code)
    (he : MustConsume g e) : MustConsume g id
  | labeled {id e : NodeId} {label : Option String} (hshape : g.shape id = .labeled label e)
    (he : MustConsume g e) : MustConsume g id
  | text {id e : NodeId} (hshape : g.shape id = .text e) (he : MustConsume g e) : MustConsume g id
  | oneOrMore {id e : NodeId} (hshape : g.shape id = .oneOrMore e) (he : MustConsume g e) :
    MustConsume g id
  | rangeItem {id e : NodeId} {min : UInt32} {max : Option UInt32} {delimiter : Option NodeId}
    (hshape : g.shape id = .range min max e delimiter) (hmin : 1 ≤ min) (he : MustConsume g e) :
    MustConsume g id
  | rangeDelimiter {id e d : NodeId} {min : UInt32} {max : Option UInt32}
    (hshape : g.shape id = .range min max e (some d)) (hmin : 2 ≤ min) (hd : MustConsume g d) :
    MustConsume g id
  | sequence {id e : NodeId} {es : List NodeId} (hshape : g.shape id = .sequence es)
    (hmem : e ∈ es) (he : MustConsume g e) : MustConsume g id
  | choice {id : NodeId} {es : List NodeId} (hshape : g.shape id = .choice es) (hne : es ≠ [])
    (hes : ∀ e ∈ es, MustConsume g e) : MustConsume g id
  | ruleRef {id : NodeId} {name : String} {index : Nat} {r : Rule}
    (hshape : g.shape id = .ruleRef name) (hindex : g.ruleIndex? name = some index)
    (hr : g.rules[index]? = some r) (he : MustConsume g r.expression) : MustConsume g id

/-- The characters of a literal can be counted in 32 bits. -/
def Shape.Counted : Shape → Prop
  | .literal value _ => value.length < 2 ^ 32
  | _ => True

instance : DecidablePred Shape.Counted := fun shape => by
  unfold Shape.Counted
  split <;> infer_instance

/-- The characters of all literals can be counted in 32 bits. -/
def Grammar.Counted (g : Grammar) : Prop := ∀ id, (g.shape id).Counted

theorem Grammar.Counted.length_lt {g : Grammar} (h : g.Counted) {id : NodeId} {value : String}
    {ignoreCase : Bool} (hshape : g.shape id = .literal value ignoreCase) :
    value.length < 2 ^ 32 := by
  have := h id
  rwa [hshape] at this

namespace MustConsume

open Peg

/-- The rule of a name is one whose expression is marked. -/
def RuleOf (g : Grammar) (marked : NodeId → Prop) (name : String) : Prop :=
  ∃ index r, g.ruleIndex? name = some index ∧ g.rules[index]? = some r ∧ marked r.expression

variable {g : Grammar} {id : NodeId}

theorem of_consuming (h : Consuming (MustConsume g) (RuleOf g (MustConsume g)) (g.shape id))
    (hne : g.shape id ≠ .choice []) : MustConsume g id := by
  cases hshape : g.shape id <;> rw [hshape] at h hne
  case named name e => exact .named hshape h
  case action e source => exact .action hshape h
  case labeled label e => exact .labeled hshape h
  case text e => exact .text hshape h
  case oneOrMore e => exact .oneOrMore hshape h
  case choice es => exact .choice hshape (fun hnil => hne (congrArg _ hnil)) h
  case sequence es =>
    obtain ⟨e, hmem, he⟩ := h
    exact .sequence hshape hmem he
  case range min max e delimiter =>
    rcases h with ⟨hmin, he⟩ | ⟨hmin, d, hd, he⟩
    · exact .rangeItem hshape hmin he
    · cases hd
      exact .rangeDelimiter hshape hmin he
  case ruleRef name =>
    obtain ⟨index, r, hindex, hr, he⟩ := h
    exact .ruleRef hshape hindex hr he
  case literal value ignoreCase =>
    refine .literal hshape ?_
    rintro rfl
    exact absurd h (Nat.lt_irrefl 0)
  case regex value ignoreCase multiLine raw =>
    refine .regex hshape ?_
    cases hempty : Regex.matchesEmpty? value ignoreCase multiLine <;>
      simp_all [Peg.Consuming, Consumption.regexMatchesEmpty]
  case charClass parts inverted ignoreCase raw => exact .charClass hshape
  case any => exact .any hshape
  all_goals exact h.elim

/-- No marks that are closed in this way leave anything out. -/
theorem least {M : NodeId → Prop} (hcounted : g.Counted)
    (hclosed : ∀ id, Consuming M (RuleOf g M) (g.shape id) → g.shape id ≠ .choice [] → M id)
    (h : MustConsume g id) : M id := by
  induction h with
  | @literal id value _ hshape hvalue =>
    have hlength : 0 < value.length := by
      rwa [Nat.pos_iff_ne_zero, Ne, String.length_eq_zero_iff]
    refine hclosed _ ?_ (by rw [hshape]; nofun)
    rw [hshape]
    change 0 < value.length % 2 ^ 32
    rwa [Nat.mod_eq_of_lt (hcounted.length_lt hshape)]
  | regex hshape hempty =>
    refine hclosed _ ?_ (by rw [hshape]; nofun)
    rw [hshape]
    simp [Consuming, Consumption.regexMatchesEmpty, hempty]
  | charClass hshape => exact hclosed _ (by rw [hshape]; trivial) (by rw [hshape]; nofun)
  | any hshape => exact hclosed _ (by rw [hshape]; trivial) (by rw [hshape]; nofun)
  | named hshape _ ih => exact hclosed _ (by rwa [hshape]) (by rw [hshape]; nofun)
  | action hshape _ ih => exact hclosed _ (by rwa [hshape]) (by rw [hshape]; nofun)
  | labeled hshape _ ih => exact hclosed _ (by rwa [hshape]) (by rw [hshape]; nofun)
  | text hshape _ ih => exact hclosed _ (by rwa [hshape]) (by rw [hshape]; nofun)
  | oneOrMore hshape _ ih => exact hclosed _ (by rwa [hshape]) (by rw [hshape]; nofun)
  | rangeItem hshape hmin _ ih =>
    exact hclosed _ (by rw [hshape]; exact .inl ⟨hmin, ih⟩) (by rw [hshape]; nofun)
  | rangeDelimiter hshape hmin _ ih =>
    exact hclosed _ (by rw [hshape]; exact .inr ⟨hmin, _, rfl, ih⟩) (by rw [hshape]; nofun)
  | sequence hshape hmem _ ih =>
    exact hclosed _ (by rw [hshape]; exact ⟨_, hmem, ih⟩) (by rw [hshape]; nofun)
  | choice hshape hne _ ih =>
    refine hclosed _ (by rwa [hshape]) fun hnil => hne ?_
    rw [hshape] at hnil
    exact Shape.choice.inj hnil
  | ruleRef hshape hindex hr _ ih =>
    exact hclosed _ (by rw [hshape]; exact ⟨_, _, hindex, hr, ih⟩) (by rw [hshape]; nofun)

end MustConsume

namespace Consumption

variable {g : Grammar} {f : Facts} {c c' : Context} {widen : Bool}

/-! ## One step after the other -/

/-- What every step of a sweep keeps, in view of how far the sweep is, holds after the sweep. -/
theorem sweep_induct (widen : Bool) {P : Nat → Context → Prop} (h : P 0 c)
    (hstep : ∀ c' index r, P index c' → c.grammar.rules[index]? = some r →
      P (index + 1) (revise widen c' (r, index))) :
    P c.grammar.rules.length (sweep c widen) := by
  have hall (rs : List Rule) (k : Nat) (c' : Context) (hk : P k c')
      (hrs : ∀ j, rs[j]? = c.grammar.rules[k + j]?) :
      P (k + rs.length) ((rs.zipIdx k).foldl (revise widen) c') := by
    induction rs generalizing k c' with
    | nil => exact hk
    | cons r rs ih =>
      have hr : c.grammar.rules[k]? = some r := (hrs 0).symm
      have hrest := ih (k + 1) _ (hstep c' k r hk hr) fun j => by
        rw [Nat.add_right_comm, Nat.add_assoc]
        exact hrs (j + 1)
      rwa [Nat.add_right_comm] at hrest
  have hdone := hall c.grammar.rules 0 c h fun j => by rw [Nat.zero_add]
  rwa [Nat.zero_add] at hdone

/-- The context is about a grammar, and refers to its rules by their names. -/
structure Context.Fits (c : Context) (g : Grammar) : Prop where
  grammar : c.grammar = g
  size : c.records.size = g.rules.length
  emptyRegex : ∀ id < g.nodes.size, c.emptyRegex.getD id true = regexMatchesEmpty (g.shape id)
  target : ∀ id name, g.Owned id → g.shape id = .ruleRef name →
    c.targets[id]?.join = g.ruleIndex? name

theorem Context.Fits.revise (h : c.Fits g) (p : Rule × Nat) : (revise widen c p).Fits g :=
  ⟨h.grammar, Array.size_setIfInBounds.trans h.size, h.emptyRegex, h.target⟩

theorem Context.Fits.sweep (h : c.Fits g) : (sweep c widen).Fits g :=
  sweep_induct widen (P := fun _ c => c.Fits g) h fun _ _ _ h _ => h.revise _

theorem fits_after (hf : f.Links g) (htrees : g.HasTrees) (n : Nat) : (after g f n).Fits g := by
  induction n with
  | zero =>
    refine ⟨rfl, Array.size_replicate, fun id hlt => ?_, fun id name howned hshape => ?_⟩
    · rw [Array.getD_eq_getD_getElem?, after, emptyRegex_start hlt, Option.getD_some]
    · obtain ⟨r, hr, hbelow⟩ := howned
      obtain ⟨index, hindex⟩ := List.mem_iff_getElem?.mp hr
      exact hf.target?_eq hindex (htrees r hr) hbelow hshape
  | succ n ih => exact ih.sweep

theorem record_start (g : Grammar) (f : Facts) (index : Nat) :
    (start g f).record index = nothing := by
  simp only [Context.record, start, Array.getD_eq_getD_getElem?, Array.getElem?_replicate]
  split <;> rfl

theorem settle_false (cur new : Consumption) : settle false cur new = new := by
  unfold settle
  split
  · next h => exact h.symm
  · rfl

/-- The least number in a record is the former one or what was found. -/
theorem min_settle_eq (widen : Bool) (cur new : Consumption) :
    (settle widen cur new).min = cur.min ∨ (settle widen cur new).min = new.min := by
  unfold settle
  split
  · exact .inl rfl
  · split
    · exact .inl rfl
    · exact .inr rfl

/-! ## Nothing is marked that need not consume -/

/-- All rules that are marked have to consume something. -/
def Sound (g : Grammar) (c : Context) : Prop :=
  ∀ (index : Nat) (r : Rule), g.rules[index]? = some r → 0 < (c.record index).min →
    MustConsume g r.expression

/-- What is found to consume something has to. -/
theorem Sound.mustConsume (h : Sound g c) (hc : c.Fits g) (htrees : g.HasTrees) {depth : Nat}
    {id : NodeId} (howned : g.Owned id) (hpos : 0 < (ofNode c depth id).min) :
    MustConsume g id := by
  induction depth generalizing id with
  | zero => exact absurd hpos (Nat.lt_irrefl 0)
  | succ depth ih =>
    have hregex := hc.emptyRegex id (htrees.tree howned).lt_size
    obtain rfl := hc.grammar
    have hrule (name : String) (target : Nat) (hshape : c.grammar.shape id = .ruleRef name)
        (htarget : c.targets[id]?.join = some target) (hpos : 0 < (c.record target).min) :
        MustConsume.RuleOf c.grammar (MustConsume c.grammar) name := by
      rw [hc.target id name howned hshape] at htarget
      have hr := List.getElem?_eq_getElem (Facts.ruleIndex?_lt htarget)
      exact ⟨target, _, htarget, hr, h target _ hr hpos⟩
    obtain ⟨hconsuming, hne⟩ :=
      Facts.consuming_of_ofNode (fun e he hpos => ih (howned.child he) hpos) hrule hregex hpos
    exact .of_consuming hconsuming hne

theorem Sound.revise (h : Sound g c) (hc : c.Fits g) (htrees : g.HasTrees) {index : Nat} {r : Rule}
    (hr : g.rules[index]? = some r) : Sound g (revise widen c (r, index)) := by
  intro i r' hr' hpos
  rw [record_revise] at hpos
  split at hpos
  · next hi =>
    obtain ⟨rfl, -⟩ := hi
    obtain rfl : r' = r := Option.some.inj (hr'.symm.trans hr)
    rcases min_settle_eq widen (c.record i) (ofRule c r') with hmin | hmin
    · exact h i r' hr (hmin ▸ hpos)
    · exact h.mustConsume hc htrees ⟨r', List.mem_of_getElem? hr, .refl⟩ (hmin ▸ hpos)
  · exact h i r' hr' hpos

theorem Sound.sweep (h : Sound g c) (hc : c.Fits g) (htrees : g.HasTrees) :
    Sound g (sweep c widen) := by
  refine (sweep_induct widen (P := fun _ c => Sound g c ∧ c.Fits g) ⟨h, hc⟩ ?_).1
  intro c' index r hc' hr
  rw [hc.grammar] at hr
  exact ⟨hc'.1.revise hc'.2 htrees hr, hc'.2.revise _⟩

theorem sound_after (hf : f.Links g) (htrees : g.HasTrees) (n : Nat) : Sound g (after g f n) := by
  induction n with
  | zero =>
    intro index r _ hpos
    rw [after, record_start] at hpos
    exact absurd hpos (Nat.lt_irrefl 0)
  | succ n ih => exact ih.sweep (fits_after hf htrees n) htrees

/-! ## Everything is marked that must consume -/

section

variable {f : NodeId → Consumption} {es : List NodeId}

theorem clampCount_pos_iff {n : Nat} : 0 < clampCount n ↔ 0 < n :=
  ⟨clampCount_pos, fun h => Nat.lt_min.mpr ⟨h, by decide⟩⟩

theorem min_foldl_andThen_pos {c : Consumption} (h : 0 < c.min ∨ ∃ e ∈ es, 0 < (f e).min) :
    0 < ((es.map f).foldl andThen c).min := by
  induction es generalizing c with
  | nil => exact h.resolve_right (by simp)
  | cons e es ih =>
    refine ih ?_
    rcases h with h | ⟨e', he', hpos⟩
    · exact .inl (clampCount_pos_iff.mpr (Nat.add_pos_left h _))
    · rcases List.mem_cons.mp he' with rfl | he'
      · exact .inl (clampCount_pos_iff.mpr (Nat.add_pos_right _ hpos))
      · exact .inr ⟨e', he', hpos⟩

theorem min_foldl_orElse_pos {c : Consumption} (hc : 0 < c.min) (h : ∀ e ∈ es, 0 < (f e).min) :
    0 < ((es.map f).foldl orElse c).min := by
  induction es generalizing c with
  | nil => exact hc
  | cons e es ih =>
    exact ih (Nat.lt_min.mpr ⟨hc, h e List.mem_cons_self⟩)
      fun e' he' => h e' (List.mem_cons_of_mem _ he')

theorem min_ofChoice_pos (hne : es ≠ []) (h : ∀ e ∈ es, 0 < (f e).min) :
    0 < (ofChoice (es.map f)).min := by
  cases es with
  | nil => exact absurd rfl hne
  | cons e es =>
    exact min_foldl_orElse_pos (h e List.mem_cons_self)
      fun e' he' => h e' (List.mem_cons_of_mem _ he')

theorem min_range_pos {min : Nat} {max : Option Nat} {e d : Consumption}
    (h : (0 < min ∧ 0 < e.min) ∨ (2 ≤ min ∧ 0 < d.min)) : 0 < (range min max e d).min := by
  have hitems (hmin : 0 < min) (he : 0 < e.min) : 0 < clampCount (e.min * min) :=
    clampCount_pos_iff.mpr (Nat.mul_pos he hmin)
  unfold range
  dsimp only
  split
  · next hmin =>
    refine clampCount_pos_iff.mpr ?_
    rcases h with ⟨hpos, he⟩ | ⟨-, hd⟩
    · exact Nat.add_pos_left (hitems hpos he) _
    · exact Nat.add_pos_right _ (clampCount_pos_iff.mpr (Nat.mul_pos (by omega) hd))
  · rcases h with ⟨hpos, he⟩ | ⟨hpos, -⟩
    · exact hitems hpos he
    · omega

end

/-- What is found below a node is enough for it to be found to consume something. -/
theorem pos_ofNode {marked : NodeId → Prop} {rule : String → Prop} {depth : Nat} {id : NodeId}
    (h : Peg.Consuming marked rule (c.grammar.shape id))
    (hchild : ∀ e ∈ c.grammar.children id, marked e → 0 < (ofNode c depth e).min)
    (hrule : ∀ name, c.grammar.shape id = .ruleRef name → rule name →
      ∃ target, c.targets[id]?.join = some target ∧ 0 < (c.record target).min)
    (hregex : c.emptyRegex.getD id true = regexMatchesEmpty (c.grammar.shape id))
    (hne : c.grammar.shape id ≠ .choice []) : 0 < (ofNode c (depth + 1) id).min := by
  rw [children] at hchild
  cases hshape : c.grammar.shape id <;> rw [hshape] at h hchild hne
  case ruleRef name =>
    obtain ⟨target, htarget, hpos⟩ := hrule name hshape h
    rw [ofNode_ruleRef hshape, htarget]
    exact hpos
  all_goals simp only [ofNode, hshape]
  case named name e => exact hchild e (by simp [Shape.children, Shape.singleChild?]) h
  case action e source => exact hchild e (by simp [Shape.children, Shape.singleChild?]) h
  case labeled label e => exact hchild e (by simp [Shape.children, Shape.singleChild?]) h
  case text e => exact hchild e (by simp [Shape.children, Shape.singleChild?]) h
  case oneOrMore e => exact hchild e (by simp [Shape.children, Shape.singleChild?]) h
  case choice es =>
    exact min_ofChoice_pos (fun hnil => hne (congrArg _ hnil)) fun e he => hchild e he (h e he)
  case sequence es =>
    obtain ⟨e, he, hmarked⟩ := h
    exact min_foldl_andThen_pos (.inr ⟨e, he, hchild e he hmarked⟩)
  case range min max e delimiter =>
    refine min_range_pos ?_
    rcases h with ⟨hmin, he⟩ | ⟨hmin, d, hd, hmarked⟩
    · exact .inl ⟨hmin, hchild e (by simp [Shape.children]) he⟩
    · cases hd
      exact .inr ⟨hmin, hchild d (by simp [Shape.children]) hmarked⟩
  case literal value ignoreCase => exact h
  case regex value ignoreCase multiLine raw =>
    have hempty : regexMatchesEmpty (.regex value ignoreCase multiLine raw) = false := h
    rw [hregex, hshape, hempty]
    exact Nat.one_pos
  case charClass parts inverted ignoreCase raw => exact Nat.one_pos
  case any => exact Nat.one_pos
  all_goals exact h.elim

/-- All rules are marked that are found to consume something. -/
def Closed (c : Context) : Prop :=
  ∀ (index : Nat) (r : Rule), c.grammar.rules[index]? = some r → 0 < (ofRule c r).min →
    0 < (c.record index).min

/-- What has to consume something is found to, once all rules are marked. -/
theorem Closed.pos_of_mustConsume (h : Closed c) (hc : c.Fits g) (htrees : g.HasTrees)
    (hcounted : g.Counted) {id : NodeId} (hid : MustConsume g id) (howned : g.Owned id)
    {depth : Nat} (hwithin : g.Within depth id) : 0 < (ofNode c depth id).min := by
  obtain rfl := hc.grammar
  refine hid.least (M := fun id => c.grammar.Owned id → ∀ depth, c.grammar.Within depth id →
    0 < (ofNode c depth id).min) hcounted (fun id hconsuming hne howned depth hwithin => ?_) howned
    depth hwithin
  obtain ⟨depth, rfl⟩ := hwithin.exists_succ
  refine pos_ofNode hconsuming (fun e he hmarked => ?_) ?_ (hc.emptyRegex id hwithin.1) hne
  · exact hmarked (howned.child he) depth (hwithin.2 e he)
  · rintro name hshape ⟨index, r, hindex, hr, hmarked⟩
    have hmem := List.mem_of_getElem? hr
    refine ⟨index, (hc.target id name howned hshape).trans hindex, h index r hr ?_⟩
    exact hmarked ⟨r, hmem, .refl⟩ _ (htrees r hmem).within

/-! ### Marks spread until all rules are marked -/

theorem rising_after (g : Grammar) (f : Facts) (n : Nat) : Rising (after g f n) := by
  induction n with
  | zero => exact rising_start g f
  | succ n ih => exact (ih.sweep _).1

theorem rises_after (g : Grammar) (f : Facts) {m n : Nat} (hle : m ≤ n) :
    (after g f m).Rises (after g f n) := by
  induction hle with
  | refl => exact .refl _
  | step _ ih => exact ih.trans ((rising_after g f _).sweep _).2

/-- Before bounds are given up, a sweep finds as much for a rule as can be found from the records
before. -/
theorem min_ofRule_le_sweep (h : Rising c) (hsize : c.records.size = c.grammar.rules.length)
    {index : Nat} {r : Rule} (hr : c.grammar.rules[index]? = some r) :
    (ofRule c r).min ≤ ((sweep c false).record index).min := by
  have hall := sweep_induct false (c := c) (P := fun k c' => Rising c' ∧ c.Rises c' ∧
    ∀ i < k, ∀ r, c.grammar.rules[i]? = some r → (ofRule c r).min ≤ (c'.record i).min)
    ⟨h, .refl c, nofun⟩ ?_
  · exact hall.2.2 index (List.getElem?_eq_some_iff.mp hr).1 r hr
  · rintro c' k r ⟨hrising, hrises, hdone⟩ hr
    rw [← hrises.grammar] at hr
    refine ⟨hrising.revise false hr, hrises.trans (hrising.rises_revise false hr), ?_⟩
    intro i hi r' hr'
    rw [record_revise]
    split
    · next hk =>
      obtain ⟨rfl, -⟩ := hk
      rw [← hrises.grammar, hr] at hr'
      cases hr'
      rw [settle_false, ofRule, ofRule, hrises.grammar]
      exact min_ofNode_mono hrises (Nat.le_refl _) _
    · next hk =>
      have hlt := (List.getElem?_eq_some_iff.mp hr').1
      rw [hrises.size, hsize] at hk
      exact hdone i (by omega) r' hr'

/-- The rules that are marked. -/
def marked (c : Context) : Finset Nat :=
  (Finset.range c.grammar.rules.length).filter fun index => 0 < (c.record index).min

/-- As long as some rule is not marked that should be, a sweep marks one more. -/
theorem card_marked_lt (h : Rising c) (hsize : c.records.size = c.grammar.rules.length)
    (hopen : ¬Closed c) : (marked c).card < (marked (sweep c false)).card := by
  obtain ⟨hrising, hrises⟩ := h.sweep false
  unfold Closed at hopen
  push Not at hopen
  obtain ⟨index, r, hr, hpos, hzero⟩ := hopen
  have hlt := (List.getElem?_eq_some_iff.mp hr).1
  refine Finset.card_lt_card ((Finset.ssubset_iff_of_subset fun i hi => ?_).mpr ⟨index, ?_, ?_⟩)
  · obtain ⟨hmem, hi⟩ := Finset.mem_filter.mp hi
    rw [marked, hrises.grammar]
    exact Finset.mem_filter.mpr ⟨hmem, hi.trans_le (hrises.min i)⟩
  · rw [marked, hrises.grammar]
    exact Finset.mem_filter.mpr ⟨Finset.mem_range.mpr hlt,
      hpos.trans_le (min_ofRule_le_sweep h hsize hr)⟩
  · intro hmem
    exact absurd (Finset.mem_filter.mp hmem).2 (Nat.not_lt.mpr hzero)

/-- All rules are marked before bounds are given up. -/
theorem exists_closed_after (g : Grammar) (f : Facts) :
    ∃ k ≤ g.rules.length, Closed (after g f k) := by
  by_contra hnone
  push Not at hnone
  have hmarked (k : Nat) (hk : k ≤ g.rules.length + 1) : k ≤ (marked (after g f k)).card := by
    induction k with
    | zero => exact Nat.zero_le _
    | succ k ih =>
      obtain ⟨htidy, hgrammar⟩ := tidy_after g f k
      have hlt := card_marked_lt (rising_after g f k) htidy.size (hnone k (by omega))
      rw [after, decide_eq_false (by rw [patience]; omega)]
      exact Nat.succ_le_of_lt ((ih (by omega)).trans_lt hlt)
  have hle := hmarked (g.rules.length + 1) (Nat.le_refl _)
  have hcard : (marked (after g f (g.rules.length + 1))).card ≤ g.rules.length := by
    refine (Finset.card_filter_le _ _).trans ?_
    rw [Finset.card_range, (tidy_after g f _).2]
  omega

/-- All rules are marked when the loop ends. -/
theorem exists_closed_before {n : Nat} (h : EndsAfter g f n) :
    ∃ k ≤ n, Closed (after g f k) := by
  obtain ⟨k, hk, hclosed⟩ := exists_closed_after g f
  rcases Nat.le_total k n with hkn | hnk
  · exact ⟨k, hkn, hclosed⟩
  · -- The sweep that changes nothing comes before bounds are given up.
    refine ⟨n, Nat.le_refl n, fun index r hr hpos => ?_⟩
    have hsettled := h.settled
    rw [after, decide_eq_false (by rw [patience]; omega)] at hsettled
    rw [Context.record, ← hsettled]
    exact hpos.trans_le (min_ofRule_le_sweep (rising_after g f n) (tidy_after g f n).1.size hr)

/-- The least number of characters that was found for a node is positive if it has to consume
something, and only then. -/
theorem min_consumptionOf_pos_iff (hf : f.Links g) (htrees : g.HasTrees) (hcounted : g.Counted)
    {id : NodeId} (howned : g.Owned id) :
    0 < ((f.analyze g).consumptionOf id).min ↔ MustConsume g id := by
  obtain ⟨n, hends, hsolve⟩ := exists_endsAfter g f
  have hfits : (solve g f).Fits g := hsolve ▸ fits_after hf htrees n
  have hrecord : (f.analyze g).consumptionOf id = ofNode (solve g f) g.depthBound id := by
    have hgrammar := hfits.grammar
    rw [Facts.consumptionOf_of_owned (c := solve g f) rfl (hgrammar.symm ▸ htrees)
      (hgrammar.symm ▸ howned), hgrammar]
  rw [hrecord]
  constructor
  · intro hpos
    have hsound : Sound g (solve g f) := hsolve ▸ sound_after hf htrees n
    exact hsound.mustConsume hfits htrees howned hpos
  · intro hid
    obtain ⟨k, hk, hclosed⟩ := exists_closed_before hends
    have hpos := hclosed.pos_of_mustConsume (fits_after hf htrees k) htrees hcounted hid howned
      (htrees.tree howned).within
    rw [hsolve]
    exact hpos.trans_le (min_ofNode_mono (rises_after g f hk) (Nat.le_refl _) id)

end Consumption

end PegMachine
