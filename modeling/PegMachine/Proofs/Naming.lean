import PegMachine.Proofs.Depths
import PegMachine.Proofs.Upkeep

/-!
# Nodes are called by the nearest name

A name is written along a whole chain of nodes, and writing stops at a node that has a name from as
deep or from deeper down. What nodes are called in the end can be said without chains: a node with a
name of its own has that name, any other node of a chain is called like the one before it, and where
no chain leads there is no name, unless it is the root of a rule. The own name of a node is from
deeper down than all other names that come to it, so this does not depend on the order in which names
are written: each of these facts is kept by the writing of any name.
-/

namespace PegMachine

namespace Shape

/-- The name that a shape gives its own node: a display name or a label. -/
def ownName? : Shape → Option String
  | .named name _ => some name
  | .labeled label _ => label
  | _ => none

theorem chainChild?_eq_some_iff {s : Shape} {id : NodeId} : s.chainChild? = some id ↔
    s.singleChild? = some id ∨ ∃ min max delimiter, s = .range min max id delimiter := by
  cases s <;> simp [chainChild?, singleChild?]

theorem mem_children_of_chainChild? {s : Shape} {id : NodeId} (h : s.chainChild? = some id) :
    id ∈ s.children := by
  cases s <;> simp_all [chainChild?, singleChild?, children]

theorem isNamed_of_ownName? {s : Shape} (h : s.ownName? = none) : s.isNamed = false := by
  cases s <;> simp_all [isNamed, ownName?]

end Shape

/-- What one step of a fold makes true and all other steps keep is true in the end. -/
theorem foldl_established {α β : Type} {inv P : β → Prop} {step : β → α → β} {l : List α} {x : α}
    (hx : x ∈ l) (hinv : ∀ a ∈ l, ∀ s, inv s → inv (step s a)) (hmakes : ∀ s, inv s → P (step s x))
    (hkeeps : ∀ a ∈ l, ∀ s, inv s → P s → P (step s a)) {s : β} (h : inv s) :
    P (l.foldl step s) := by
  obtain ⟨before, after, rfl⟩ := List.append_of_mem hx
  rw [List.foldl_append, List.foldl_cons]
  have hbefore : inv (before.foldl step s) :=
    List.foldlRecOn (motive := inv) before step h fun s hs a ha =>
      hinv a (List.mem_append_left _ ha) s hs
  have hafter (a : α) (ha : a ∈ after) : a ∈ before ++ x :: after :=
    List.mem_append_right _ (List.mem_cons_of_mem _ ha)
  refine (List.foldlRecOn (motive := fun s => inv s ∧ P s) after step
    ⟨hinv x hx _ hbefore, hmakes _ hbefore⟩ fun s hs a ha => ?_).2
  exact ⟨hinv a (hafter a ha) s hs.1, hkeeps a (hafter a ha) s hs.1 hs.2⟩

namespace Grammar

/-- The chain that starts at a node comes to another one. -/
def Chain (g : Grammar) : NodeId → NodeId → Prop :=
  Relation.ReflTransGen fun p e => (g.shape p).chainChild? = some e

variable {g : Grammar} {p q e : NodeId}

/-- In a forest just one chain comes to a node from above. -/
theorem Forest.chain_unique (h : g.Forest) (hp : (g.shape p).chainChild? = some e)
    (hq : e ∈ g.children q) : q = p :=
  h.parent_unique hq (Shape.mem_children_of_chainChild? hp)

end Grammar

namespace Facts

variable {f : Facts} {g : Grammar} {table table' : Array (Option Description)} {d : Description}
  {stop : Bool} {id p e x : NodeId}

/-! ## Writing one name -/

/-- What a node is called in a table. -/
def called (table : Array (Option Description)) (id : NodeId) : Option Description :=
  table[id]?.join

theorem called_set_self (h : id < table.size) :
    called (table.setIfInBounds id (some d)) id = some d := by
  rw [called, Array.getElem?_setIfInBounds_self_of_lt h]
  rfl

theorem called_set_ne (h : x ≠ id) :
    called (table.setIfInBounds id (some d)) x = called table x := by
  rw [called, called, Array.getElem?_setIfInBounds_ne h.symm]

/-- Writing at a node changes what that node is called, if it is in the table, and nothing else. -/
theorem called_set (table : Array (Option Description)) (id x : NodeId) :
    called (table.setIfInBounds id (some d)) x = called table x ∨
      x = id ∧ called (table.setIfInBounds id (some d)) x = some d := by
  by_cases hx : x = id
  · subst hx
    by_cases hlt : x < table.size
    · exact .inr ⟨rfl, called_set_self hlt⟩
    · rw [Array.setIfInBounds_eq_of_size_le (Nat.not_lt.mp hlt)]
      exact .inl rfl
  · exact .inl (called_set_ne hx)

/-- A node has a name from as deep as a new one, or from deeper down. -/
def Blocks (table : Array (Option Description)) (d : Description) (id : NodeId) : Prop :=
  ∃ old, called table id = some old ∧ d.depth ≤ old.depth

theorem blocks_iff :
    Blocks table d id ↔ table[id]?.join.any (fun old => decide (d.depth ≤ old.depth)) = true := by
  rw [Option.any_eq_true]
  simp only [decide_eq_true_eq]
  rfl

/-- A new name may be written at a node. -/
structure Open (g : Grammar) (table : Array (Option Description)) (d : Description) (stop : Bool)
    (id : NodeId) : Prop where
  unstopped : (stop && (g.shape id).isNamed) = false
  unblocked : ¬Blocks table d id

/-- The tables before and after a name is written along a chain. -/
inductive Written (g : Grammar) (d : Description) (stop : Bool) :
    NodeId → Array (Option Description) → Array (Option Description) → Prop where
  | halt {id : NodeId} {table : Array (Option Description)} (h : ¬Open g table d stop id) :
    Written g d stop id table table
  | last {id : NodeId} {table : Array (Option Description)} (h : Open g table d stop id)
    (hend : (g.shape id).chainChild? = none) :
    Written g d stop id table (table.setIfInBounds id (some d))
  | next {id next : NodeId} {table table' : Array (Option Description)}
    (h : Open g table d stop id) (hnext : (g.shape id).chainChild? = some next)
    (more : Written g d stop next (table.setIfInBounds id (some d)) table') :
    Written g d stop id table table'

/-- Chains are not longer than what they are written along is deep. -/
theorem written_describeChain {n : Nat} (h : g.Within n id) :
    Written g d stop id table (describeChain g d stop n id table) := by
  induction n generalizing id table with
  | zero => exact h.elim
  | succ n ih =>
    rw [describeChain]
    split
    · next hstop => exact .halt fun hopen => by simp [hopen.unstopped] at hstop
    · next hstop =>
      split
      · next hblocks => exact .halt fun hopen => hopen.unblocked (blocks_iff.mpr hblocks)
      · next hblocks =>
        have hopen : Open g table d stop id :=
          ⟨Bool.eq_false_iff.mpr hstop, fun hb => hblocks (blocks_iff.mp hb)⟩
        dsimp only
        split
        · next child hchild =>
          exact .next hopen hchild (ih (h.2 child (Shape.mem_children_of_chainChild? hchild)))
        · next hend => exact .last hopen hend

namespace Written

/-- A node is called as before, unless the chain comes to it and it gets the new name. -/
theorem called_eq (h : Written g d stop id table table') (x : NodeId) :
    called table' x = called table x ∨ g.Chain id x ∧ called table' x = some d := by
  induction h with
  | halt => exact .inl rfl
  | @last id table =>
    refine (called_set table id x).imp_right fun ⟨hx, hcalled⟩ => ⟨?_, hcalled⟩
    rw [hx]
    exact .refl
  | @next id next table table' h hnext more ih =>
    rcases ih with ih | ⟨hchain, ih⟩
    · rw [ih]
      refine (called_set table id x).imp_right fun ⟨hx, hcalled⟩ => ⟨?_, hcalled⟩
      rw [hx]
      exact .refl
    · exact .inr ⟨hchain.head hnext, ih⟩

/-- A node with a name from as deep or from deeper down keeps it. -/
theorem called_of_blocks (h : Written g d stop id table table') (hx : Blocks table d x) :
    called table' x = called table x := by
  have hne {table : Array (Option Description)} {id : NodeId} (hopen : Open g table d stop id)
      (hx : Blocks table d x) : x ≠ id := fun heq => hopen.unblocked (heq ▸ hx)
  induction h with
  | halt => rfl
  | last h => exact called_set_ne (hne h hx)
  | next h _ _ ih =>
    rw [ih (by rwa [Blocks, called_set_ne (hne h hx)]), called_set_ne (hne h hx)]

/-- The first node of a chain gets the new name, unless writing stops there. -/
theorem called_start (h : Written g d stop id table table') (hopen : Open g table d stop id)
    (hlt : id < table.size) : called table' id = some d := by
  have hself := called_set_self (d := d) hlt
  cases h with
  | halt hhalt => exact absurd hopen hhalt
  | last => exact hself
  | next _ _ more => rw [more.called_of_blocks ⟨d, hself, Nat.le_refl _⟩, hself]

/-- If writing stops at once the table stays as it is. -/
theorem eq_of_not_open (h : Written g d stop id table table')
    (hhalt : ¬Open g table d stop id) : table' = table := by
  cases h with
  | halt => rfl
  | last hopen => exact absurd hopen hhalt
  | next hopen => exact absurd hopen hhalt

end Written

/-- A node of a chain that has no name of its own is called like the one before it. -/
def Inherits (g : Grammar) (table : Array (Option Description)) (p e : NodeId) : Prop :=
  (g.shape p).chainChild? = some e → (g.shape e).ownName? = none →
    called table e = called table p

/-- Nodes are called like the ones before them, and the new name of the node before this one is just
about to be written here. -/
structure Pending (g : Grammar) (table : Array (Option Description)) (d : Description)
    (id : NodeId) : Prop where
  size : table.size = g.nodes.size
  others : ∀ p e, e ≠ id → Inherits g table p e
  before : ∀ p, (g.shape p).chainChild? = some id → (g.shape id).ownName? = none →
    called table p = some d ∧ ¬Blocks table d id

/-- Once the name is written here as well, only the next node may be called differently. -/
theorem Pending.inherits_set (h : Pending g table d id) (htree : g.Tree id) {p e : NodeId}
    (he : (g.shape id).chainChild? ≠ some e) :
    Inherits g (table.setIfInBounds id (some d)) p e := by
  intro hp hown
  by_cases heid : e = id
  · subst heid
    have hne : p ≠ e := by
      rintro rfl
      exact htree.not_transGen (.single (Shape.mem_children_of_chainChild? hp))
    rw [called_set_self (h.size.symm ▸ htree.lt_size), called_set_ne hne, (h.before p hp hown).1]
  · have hne : p ≠ id := by
      rintro rfl
      exact he hp
    rw [called_set_ne heid, called_set_ne hne, h.others p e heid hp hown]

theorem Pending.next (h : Pending g table d id) (hforest : g.Forest) (htree : g.Tree id)
    (hopen : Open g table d stop id) (hnext : (g.shape id).chainChild? = some x) :
    Pending g (table.setIfInBounds id (some d)) d x := by
  have hne : x ≠ id := by
    rintro rfl
    exact htree.not_transGen (.single (Shape.mem_children_of_chainChild? hnext))
  refine ⟨Array.size_setIfInBounds.trans h.size,
    fun p e he => h.inherits_set htree fun hchild => ?_, fun p hp hown => ?_⟩
  · exact he (Option.some.inj (hchild.symm.trans hnext))
  · obtain rfl := hforest.chain_unique hnext (Shape.mem_children_of_chainChild? hp)
    refine ⟨called_set_self (h.size.symm ▸ htree.lt_size), ?_⟩
    rintro ⟨old, hold, hdeep⟩
    rw [called_set_ne hne, h.others p x hne hnext hown] at hold
    exact hopen.unblocked ⟨old, hold, hdeep⟩

/-- Writing a name keeps nodes called like the ones before them: they get the new name one after the
other, and where this stops there is a name from deeper down or an own one. -/
theorem Written.inherits (h : Written g d stop id table table') (hforest : g.Forest)
    (htree : g.Tree id) (hpending : Pending g table d id) (p e : NodeId) :
    Inherits g table' p e := by
  induction h with
  | @halt id table hhalt =>
    by_cases he : e = id
    · subst he
      intro hp hown
      refine absurd ⟨?_, (hpending.before p hp hown).2⟩ hhalt
      rw [Shape.isNamed_of_ownName? hown, Bool.and_false]
    · exact hpending.others p e he
  | last hopen hend =>
    refine hpending.inherits_set htree ?_
    rw [hend]
    exact nofun
  | next hopen hnext more ih =>
    exact ih (htree.of_below (.single (Shape.mem_children_of_chainChild? hnext)))
      (hpending.next hforest htree hopen hnext)

/-! ## All names -/

/-- The description that a node gives itself. -/
def own? (f : Facts) (g : Grammar) (id : NodeId) : Option Description :=
  (g.shape id).ownName?.map (⟨·, f.depth.getD id 0⟩)

/-- A name, where its chain starts, and whether it stops at display names. -/
structure Naming where
  start : NodeId
  description : Description
  stopAtNamed : Bool

/-- Write a name along its chain. -/
def Naming.write (g : Grammar) (table : Array (Option Description)) (n : Naming) :
    Array (Option Description) :=
  describeChain g n.description n.stopAtNamed g.depthBound n.start table

/-- The naming of a rule. -/
def Naming.ofRule (r : Rule) : Naming := ⟨r.expression, ⟨r.name, 1⟩, true⟩

/-- The naming of a node that has a name of its own. -/
def naming? (f : Facts) (g : Grammar) (id : NodeId) : Option Naming :=
  (f.own? g id).map (⟨id, ·, false⟩)

/-- All names of a grammar in the order in which they are written. -/
def namings (f : Facts) (g : Grammar) : List Naming :=
  g.rules.zipIdx.flatMap fun (r, index) =>
    .ofRule r :: (g.ruleNodes index).filterMap (f.naming? g)

/-- To describe all nodes is to write all names. -/
theorem describe_eq (f : Facts) (g : Grammar) : f.describe g =
    { f with descriptions := (f.namings g).foldl (Naming.write g) f.descriptions } := by
  have hnode (table : Array (Option Description)) (id : NodeId) : f.describeNode g table id =
      (f.naming? g id).elim table (Naming.write g table) := by
    rw [describeNode, naming?, own?, Shape.ownName?.eq_def]
    cases g.shape id with
    | labeled label => cases label <;> rfl
    | _ => rfl
  rw [describe, namings, List.foldl_flatMap]
  congr 2
  funext table ⟨r, index⟩
  rw [describeRule, List.foldl_cons, List.foldl_filterMap]
  congr 1
  funext table id
  rw [hnode]
  cases f.naming? g id <;> rfl

theorem ownName?_of_own? (h : f.own? g id = some d) : (g.shape id).ownName? ≠ none := by
  intro hnone
  rw [own?, hnone] at h
  cases h

theorem depth_of_own? (h : f.own? g id = some d) : d.depth = f.depth.getD id 0 := by
  obtain ⟨name, -, rfl⟩ := Option.map_eq_some_iff.mp h
  rfl

theorem mem_namings {n : Naming} (h : n ∈ f.namings g) :
    (∃ r ∈ g.rules, n = .ofRule r) ∨ ∃ id d, f.own? g id = some d ∧ n = ⟨id, d, false⟩ := by
  obtain ⟨⟨r, index⟩, hr, hn⟩ := List.mem_flatMap.mp h
  rcases List.mem_cons.mp hn with rfl | hn
  · exact .inl ⟨r, List.fst_mem_of_mem_zipIdx hr, rfl⟩
  · obtain ⟨id, -, hid⟩ := List.mem_filterMap.mp hn
    obtain ⟨d, hd, rfl⟩ := Option.map_eq_some_iff.mp hid
    exact .inr ⟨id, d, hd, rfl⟩

theorem ofRule_mem_namings {r : Rule} (hr : r ∈ g.rules) : .ofRule r ∈ f.namings g := by
  obtain ⟨i, hi, rfl⟩ := List.getElem_of_mem hr
  refine List.mem_flatMap.mpr ⟨(g.rules[i], i), ?_, List.mem_cons_self⟩
  exact List.mk_mem_zipIdx_iff_getElem?.mpr (List.getElem?_eq_getElem hi)

theorem own_mem_namings (hid : id ∈ g.allNodes) (h : f.own? g id = some d) :
    ⟨id, d, false⟩ ∈ f.namings g := by
  obtain ⟨i, hi, hid⟩ := List.mem_flatMap.mp hid
  have hi := List.mem_range.mp hi
  refine List.mem_flatMap.mpr ⟨(g.rules[i], i), ?_, ?_⟩
  · exact List.mk_mem_zipIdx_iff_getElem?.mpr (List.getElem?_eq_getElem hi)
  · refine List.mem_cons_of_mem _ (List.mem_filterMap.mpr ⟨id, hid, ?_⟩)
    rw [naming?, h]
    rfl

/-- A flattened grammar, and the depths of its nodes. -/
structure Measured (f : Facts) (g : Grammar) : Prop where
  forest : g.Forest
  ordered : g.Ordered
  trees : g.HasTrees
  deep : f.Deep g

namespace Measured

variable {n : Naming}

theorem own_lt (h : f.own? g id = some d) : id < g.nodes.size := by
  by_contra hge
  refine ownName?_of_own? h ?_
  rw [Grammar.shape_of_size_le (Nat.not_lt.mp hge)]
  rfl

theorem tree_start (h : f.Measured g) (hn : n ∈ f.namings g) : g.Tree n.start := by
  rcases mem_namings hn with ⟨r, hr, rfl⟩ | ⟨id, d, hown, rfl⟩
  · exact h.trees r hr
  · exact h.ordered.tree (own_lt hown)

theorem written (h : f.Measured g) (hn : n ∈ f.namings g) (table : Array (Option Description)) :
    Written g n.description n.stopAtNamed n.start table (n.write g table) :=
  written_describeChain (h.tree_start hn).within

/-- Chains go down. -/
theorem depth_lt (h : f.Measured g) (hchain : g.Chain id x) :
    x = id ∨ f.depth.getD id 0 < f.depth.getD x 0 := by
  induction hchain with
  | refl => exact .inl rfl
  | @tail p e _ hstep ih =>
    have hdeeper := h.deep.child p e (Shape.mem_children_of_chainChild? hstep)
    rcases ih with rfl | ih
    · exact .inr (hdeeper ▸ Nat.lt_succ_self _)
    · exact .inr (hdeeper ▸ Nat.lt_succ_of_lt ih)

/-- Where a chain comes to, its name is from further up, unless it is the own name of the node. -/
theorem nearer (h : f.Measured g) (hn : n ∈ f.namings g) (hchain : g.Chain n.start x) :
    n.description.depth < f.depth.getD x 0 ∨ f.own? g x = some n.description := by
  rcases mem_namings hn with ⟨r, hr, rfl⟩ | ⟨id, d, hown, rfl⟩
  · have hroot := h.deep.root r hr
    rcases h.depth_lt hchain with rfl | hlt
    · exact .inl (hroot ▸ Nat.one_lt_two)
    · exact .inl (Nat.one_lt_two.trans (hroot ▸ hlt))
  · rcases h.depth_lt hchain with rfl | hlt
    · exact .inr hown
    · exact .inl (depth_of_own? hown ▸ hlt)

/-- A chain that starts at a node without a name of its own starts at the root of a rule. -/
theorem start_of_unnamed (h : f.Measured g) (hn : n ∈ f.namings g)
    (hunnamed : (g.shape n.start).ownName? = none) :
    (∀ p, n.start ∉ g.children p) ∧
      ∀ r ∈ g.rules, r.expression = n.start → n.description = ⟨r.name, 1⟩ := by
  rcases mem_namings hn with ⟨r, hr, rfl⟩ | ⟨id, d, hown, rfl⟩
  · refine ⟨fun p => h.forest.root_not_mem hr, fun r' hr' heq => ?_⟩
    rw [List.inj_on_of_nodup_map (List.nodup_append.mp h.forest.nodup).1 hr' hr heq]
    rfl
  · exact absurd hunnamed (ownName?_of_own? hown)

/-- A node that is called by its own name is still called so after any name was written. -/
theorem called_own_kept (h : f.Measured g) (hn : n ∈ f.namings g) (hown : f.own? g id = some d)
    (hcalled : called table id = some d) : called (n.write g table) id = some d := by
  have hwritten := h.written hn table
  rcases hwritten.called_eq id with hsame | ⟨hchain, hnew⟩
  · rw [hsame, hcalled]
  · rcases h.nearer hn hchain with hlt | hsame
    · rw [hwritten.called_of_blocks ⟨d, hcalled, depth_of_own? hown ▸ Nat.le_of_lt hlt⟩, hcalled]
    · rw [hnew, ← hsame, hown]

/-- A node that is called anything is still called something after any name was written. -/
theorem called_ne_none (h : f.Measured g) (hn : n ∈ f.namings g) (hsome : called table id ≠ none) :
    called (n.write g table) id ≠ none := by
  rcases (h.written hn table).called_eq id with hsame | ⟨-, hnew⟩
  · rwa [hsame]
  · rw [hnew]
    exact nofun

end Measured

/-- What is true of the names of nodes whenever some of them have been written. -/
structure Consistent (f : Facts) (g : Grammar) (table : Array (Option Description)) : Prop where
  size : table.size = g.nodes.size
  nearer : ∀ id d, called table id = some d →
    d.depth < f.depth.getD id 0 ∨ f.own? g id = some d
  inherits : ∀ p e, Inherits g table p e
  apart : ∀ p, ∀ e ∈ g.children p, (g.shape p).chainChild? ≠ some e →
    (g.shape e).ownName? = none → called table e = none
  root : ∀ r ∈ g.rules, (g.shape r.expression).ownName? = none →
    ∀ d ∈ called table r.expression, d = ⟨r.name, 1⟩

namespace Consistent

variable {n : Naming}

/-- Writing any name keeps all of it. -/
theorem write (h : f.Consistent g table) (hm : f.Measured g) (hn : n ∈ f.namings g) :
    f.Consistent g (n.write g table) := by
  have hwritten := hm.written hn table
  constructor
  case size => exact (size_describeChain _ _ _ _ _).trans h.size
  case nearer =>
    intro x d hd
    rcases hwritten.called_eq x with hsame | ⟨hchain, hnew⟩
    · exact h.nearer x d (hsame ▸ hd)
    · obtain rfl := Option.some.inj (hnew.symm.trans hd)
      exact hm.nearer hn hchain
  case inherits =>
    -- Where the chain starts there is an own name, or nothing above it to be called like.
    refine hwritten.inherits hm.forest (hm.tree_start hn)
      ⟨h.size, fun p e _ => h.inherits p e, fun p hp hown => ?_⟩
    exact absurd (Shape.mem_children_of_chainChild? hp) ((hm.start_of_unnamed hn hown).1 p)
  case apart =>
    intro p e he hchild hown
    rcases hwritten.called_eq e with hsame | ⟨hchain, -⟩
    · rw [hsame, h.apart p e he hchild hown]
    · rcases hchain.cases_tail with rfl | ⟨q, -, hq⟩
      · exact absurd he ((hm.start_of_unnamed hn hown).1 p)
      · exact absurd (hm.forest.chain_unique hq he ▸ hq) hchild
  case root =>
    intro r hr hown d hd
    rcases hwritten.called_eq r.expression with hsame | ⟨hchain, hnew⟩
    · exact h.root r hr hown d (hsame ▸ hd)
    · obtain rfl := Option.some.inj (hnew.symm.trans hd)
      rcases hchain.cases_tail with heq | ⟨q, -, hq⟩
      · exact (hm.start_of_unnamed hn (heq ▸ hown)).2 r hr heq
      · exact absurd (Shape.mem_children_of_chainChild? hq) (hm.forest.root_not_mem hr)

/-- Writing the own name of a node calls the node so. -/
theorem called_own (h : f.Consistent g table) (hm : f.Measured g) (hid : id ∈ g.allNodes)
    (hown : f.own? g id = some d) :
    called (Naming.write g table ⟨id, d, false⟩) id = some d := by
  have hwritten := hm.written (own_mem_namings hid hown) table
  by_cases hblocks : Blocks table d id
  · rw [hwritten.called_of_blocks hblocks]
    obtain ⟨old, hold, hdeep⟩ := hblocks
    rcases h.nearer id old hold with hlt | hsame
    · exact absurd (depth_of_own? hown ▸ hdeep) (Nat.not_le.mpr hlt)
    · rw [hold, ← hsame, hown]
  · exact hwritten.called_start ⟨rfl, hblocks⟩ (h.size.symm ▸ Measured.own_lt hown)

/-- Writing the name of a rule calls its root so, unless that has a name of its own. -/
theorem called_root (h : f.Consistent g table) (hm : f.Measured g) {r : Rule} (hr : r ∈ g.rules)
    (hown : (g.shape r.expression).ownName? = none) :
    called (Naming.write g table (.ofRule r)) r.expression = some ⟨r.name, 1⟩ := by
  have hwritten := hm.written (ofRule_mem_namings hr) table
  by_cases hblocks : Blocks table ⟨r.name, 1⟩ r.expression
  · refine (hwritten.called_of_blocks hblocks).trans ?_
    obtain ⟨old, hold, -⟩ := hblocks
    rw [hold, h.root r hr hown old hold]
  · refine hwritten.called_start ⟨?_, hblocks⟩ (h.size.symm ▸ (hm.trees r hr).lt_size)
    rw [Naming.ofRule, Shape.isNamed_of_ownName? hown]
    rfl

end Consistent

/-- All names have been written. -/
structure Complete (f : Facts) (g : Grammar) (table : Array (Option Description)) : Prop
    extends f.Consistent g table where
  own : ∀ id d, f.own? g id = some d → called table id = some d
  named : ∀ r ∈ g.rules, (g.shape r.expression).ownName? = none →
    called table r.expression = some ⟨r.name, 1⟩

/-- Writing all names leaves nothing out. -/
theorem Consistent.complete (h : f.Consistent g table) (hm : f.Measured g) :
    f.Complete g ((f.namings g).foldl (Naming.write g) table) := by
  have hinv : ∀ n ∈ f.namings g, ∀ table, f.Consistent g table →
      f.Consistent g (n.write g table) := fun n hn _ h => h.write hm hn
  have hend : f.Consistent g ((f.namings g).foldl (Naming.write g) table) :=
    List.foldlRecOn (motive := f.Consistent g) _ _ h fun table h n hn => hinv n hn table h
  refine { hend with own := fun id d hown => ?_, named := fun r hr hown => ?_ }
  · have hid : id ∈ g.allNodes :=
      hm.trees.mem_allNodes.mpr (hm.forest.owned hm.ordered (Measured.own_lt hown))
    exact foldl_established (P := fun table => called table id = some d)
      (own_mem_namings hid hown) hinv (fun _ h => h.called_own hm hid hown)
      (fun n hn _ _ hcalled => hm.called_own_kept hn hown hcalled) h
  · have hne := foldl_established (P := fun table => called table r.expression ≠ none)
      (ofRule_mem_namings hr) hinv (fun _ h => by rw [h.called_root hm hr hown]; exact nofun)
      (fun n hn _ _ hne => hm.called_ne_none hn hne) h
    obtain ⟨d, hd⟩ := Option.ne_none_iff_exists'.mp hne
    rw [hd, hend.root r hr hown d hd]

/-- Then writing any of them again changes nothing. -/
theorem Complete.write_eq (h : f.Complete g table) (hm : f.Measured g) {n : Naming}
    (hn : n ∈ f.namings g) : n.write g table = table := by
  refine (hm.written hn table).eq_of_not_open fun hopen => ?_
  rcases mem_namings hn with ⟨r, hr, rfl⟩ | ⟨id, d, hown, rfl⟩
  · cases hname : (g.shape r.expression).ownName? with
    | none => exact hopen.unblocked ⟨_, h.named r hr hname, Nat.le_refl _⟩
    | some name =>
      have hown : f.own? g r.expression = some ⟨name, f.depth.getD r.expression 0⟩ := by
        rw [own?, hname]
        rfl
      refine hopen.unblocked ⟨_, h.own _ _ hown, ?_⟩
      exact (hm.deep.root r hr).symm ▸ Nat.le_succ 1
  · exact hopen.unblocked ⟨d, h.own id d hown, Nat.le_refl _⟩

/-- Describing the nodes of a grammar once all names have been written changes nothing. -/
theorem Complete.describe_eq_self (h : f.Complete g f.descriptions) (hm : f.Measured g) :
    f.describe g = f := by
  rw [describe_eq]
  have hfixed : (f.namings g).foldl (Naming.write g) f.descriptions = f.descriptions :=
    List.foldlRecOn (motive := fun table => table = f.descriptions) _ _ rfl fun table heq n hn => by
      rw [heq, h.write_eq hm hn]
  rw [hfixed]

/-! ## What nodes are called -/

/-- Nodes are called by the nearest name: their own one, or else what the node is called that they
are the only child of or that they are a repetition of. The name of a rule is nearest to its root.
All other nodes are called nothing. -/
structure CallsNearest (f : Facts) (g : Grammar) : Prop where
  named : ∀ id name e, g.shape id = .named name e → f.description? id = some name
  labeled : ∀ id label e, g.shape id = .labeled (some label) e → f.description? id = some label
  only : ∀ p id, (g.shape p).singleChild? = some id → (g.shape id).ownName? = none →
    f.description? id = f.description? p
  repeated : ∀ p id min max delimiter, g.shape p = .range min max id delimiter →
    (g.shape id).ownName? = none → f.description? id = f.description? p
  alternative : ∀ p es, g.shape p = .choice es → ∀ id ∈ es, (g.shape id).ownName? = none →
    f.description? id = none
  element : ∀ p es, g.shape p = .sequence es → ∀ id ∈ es, (g.shape id).ownName? = none →
    f.description? id = none
  delimiter : ∀ p id min max e, g.shape p = .range min max e (some id) →
    (g.shape id).ownName? = none → f.description? id = none
  root : ∀ r ∈ g.rules, (g.shape r.expression).ownName? = none →
    f.description? r.expression = some r.name

theorem description?_eq (id : NodeId) :
    f.description? id = (called f.descriptions id).map (·.text) := rfl

theorem Complete.callsNearest (h : f.Complete g f.descriptions) (hforest : g.Forest) :
    f.CallsNearest g := by
  have hown {id : NodeId} {name : String} (hname : (g.shape id).ownName? = some name) :
      f.description? id = some name := by
    rw [description?_eq, h.own id ⟨name, f.depth.getD id 0⟩ (by rw [own?, hname]; rfl)]
    rfl
  have hchain {p id : NodeId} (hp : (g.shape p).chainChild? = some id)
      (hname : (g.shape id).ownName? = none) : f.description? id = f.description? p := by
    rw [description?_eq, description?_eq, h.inherits p id hp hname]
  have hapart {p id : NodeId} (hid : id ∈ g.children p) (hp : (g.shape p).chainChild? ≠ some id)
      (hname : (g.shape id).ownName? = none) : f.description? id = none := by
    rw [description?_eq, h.apart p id hid hp hname]
    rfl
  constructor
  case named =>
    intro id name e hs
    refine hown ?_
    rw [hs]
    rfl
  case labeled =>
    intro id label e hs
    refine hown ?_
    rw [hs]
    rfl
  case only =>
    intro p id hs
    exact hchain (Shape.chainChild?_eq_some_iff.mpr (.inl hs))
  case repeated =>
    intro p id min max delimiter hs
    exact hchain (Shape.chainChild?_eq_some_iff.mpr (.inr ⟨min, max, delimiter, hs⟩))
  case alternative =>
    intro p es hs id hid
    have hmem : id ∈ g.children p := by rwa [Grammar.children, hs]
    exact hapart hmem (by rw [hs]; exact (Option.some_ne_none id).symm)
  case element =>
    intro p es hs id hid
    have hmem : id ∈ g.children p := by rwa [Grammar.children, hs]
    exact hapart hmem (by rw [hs]; exact (Option.some_ne_none id).symm)
  case delimiter =>
    intro p id min max e hs
    have hchildren : g.children p = [e, id] := by
      rw [Grammar.children, hs]
      rfl
    have hmem : id ∈ g.children p := hchildren ▸ List.mem_cons_of_mem _ List.mem_cons_self
    refine hapart hmem fun hchild => ?_
    rw [hs] at hchild
    obtain rfl : e = id := Option.some.inj hchild
    have hnodup := hchildren ▸ hforest.nodup_children p
    exact (List.nodup_cons.mp hnodup).1 List.mem_cons_self
  case root =>
    intro r hr hname
    rw [description?_eq, h.named r hr hname]
    rfl

/-- No node is called anything before names are written. -/
theorem consistent_link (g : Grammar) (starters : List String) :
    Consistent f g (link {} g starters).descriptions := by
  have hdescriptions : (link {} g starters).descriptions = resize #[] g.nodes.size := by
    have hrules :
        (linkRules g (unlinked {} g starters)).descriptions = resize #[] g.nodes.size := by
      refine linkRules_rel (R := fun f _ => f.descriptions = resize #[] g.nodes.size)
        (fun f _ rule name id parent h => ?_) _ {} rfl
      unfold enterReference
      split
      · split <;> exact h
      · exact h
    exact markStarters_rel (R := fun f _ => f.descriptions = resize #[] g.nodes.size)
      (fun _ _ _ _ h => h) 0 starters _ {} hrules
  have hnone (id : NodeId) : called (link {} g starters).descriptions id = none := by
    have hreplicate : resize (#[] : Array (Option Description)) g.nodes.size =
        Array.replicate g.nodes.size none := by simp [resize]
    rw [hdescriptions, hreplicate, called, Array.getElem?_replicate]
    split <;> rfl
  refine ⟨hdescriptions ▸ size_resize _ _, fun id d hd => ?_, fun p e _ _ => ?_,
    fun p e _ _ _ => hnone e, fun r _ _ d hd => ?_⟩
  · rw [hnone] at hd
    cases hd
  · rw [hnone, hnone]
  · rw [hnone] at hd
    cases hd

/-- Whatever grammar was written down: once it is flattened and linked and its nodes are described,
they are called by the nearest name. Describing them again changes nothing. -/
theorem describe_nearest (source : GrammarSource) (starters : List String) :
    let g := Grammar.ofSource source
    let f := (link {} g starters).describe g
    f.CallsNearest g ∧ f.describe g = f := by
  intro g f
  have hforest := Grammar.ofSource_forest source
  have hordered := (Grammar.ofSource_flattened source).ordered
  have htrees := Grammar.ofSource_hasTrees source
  have hdeep := deep_link {} hforest hordered htrees starters
  have hm : f.Measured g := ⟨hforest, hordered, htrees, ⟨hdeep.root, hdeep.child⟩⟩
  have hwritten : f.descriptions =
      (f.namings g).foldl (Naming.write g) (link {} g starters).descriptions :=
    congrArg descriptions (describe_eq (link {} g starters) g)
  have hcomplete : f.Complete g f.descriptions :=
    hwritten ▸ (consistent_link g starters).complete hm
  exact ⟨hcomplete.callsNearest hforest, hcomplete.describe_eq_self hm⟩

end Facts

end PegMachine
