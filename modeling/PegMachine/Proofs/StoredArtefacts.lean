import PegMachine.Grammar.Codec
import PegMachine.Parser
import PegMachine.Proofs.Decoding

/-!
# Programs and grammars that were stored

Programs and grammars are written as documents and read again, and come back as they were. Each part
of them has a document of its own. All that is asked of a part is that its numbers are those of a
machine: offsets, lines, columns and indices have 64 bits, the numbers of nodes have 32.
-/

namespace PegMachine

open Json

variable (room : Nat)

namespace Position

/-- The numbers of a position are those of a machine. -/
structure Fits (p : Position) : Prop where
  offset : p.offset < UInt64.size
  line : p.line < UInt64.size
  column : p.column < UInt64.size

instance (p : Position) : Decidable p.Fits :=
  decidable_of_iff (p.offset < UInt64.size ∧ p.line < UInt64.size ∧ p.column < UInt64.size)
    ⟨fun h => ⟨h.1, h.2.1, h.2.2⟩, fun h => ⟨h.offset, h.line, h.column⟩⟩

theorem encodes {p : Position} (h : p.Fits) : Encodes (room + 1) decode p.toJson p := by
  have hoffset := encodes_count room h.offset
  have hline := encodes_count room h.line
  have hcolumn := encodes_count room h.column
  have hplain : p.toJson.Plain (room + 1) :=
    ⟨Nat.succ_pos _, hoffset.plain, hline.plain, hcolumn.plain, trivial⟩
  refine ⟨hplain, fun m => ?_⟩
  simp [decode, toJson, hoffset.decodes, hline.decodes, hcolumn.decodes,
    Decode.Record.settle_eq_ok m hplain.2]

end Position

namespace Location

/-- Both ends of a location fit. -/
structure Fits (l : Location) : Prop where
  start : l.start.Fits
  stop : l.stop.Fits

instance (l : Location) : Decidable l.Fits :=
  decidable_of_iff (l.start.Fits ∧ l.stop.Fits) ⟨fun h => ⟨h.1, h.2⟩, fun h => ⟨h.start, h.stop⟩⟩

theorem encodes {l : Location} (h : l.Fits) : Encodes (room + 2) decode l.toJson l := by
  have hstart := Position.encodes room h.start
  have hstop := Position.encodes room h.stop
  have hplain : l.toJson.Plain (room + 2) :=
    ⟨Nat.succ_pos _, hstart.plain, hstop.plain, trivial⟩
  refine ⟨hplain, fun m => ?_⟩
  simp [decode, toJson, hstart.decodes, hstop.decodes, Decode.Record.settle_eq_ok m hplain.2]

end Location

/-! ## Programs -/

namespace Expectation

theorem encodes (e : Expectation) : Encodes (room + 1) decode e.toJson e := by
  obtain ⟨kind, value, description⟩ := e
  have hkind : Encodes room (Decode.tag Kind.ofName?) (.str kind.name) kind :=
    encodes_tag room (by cases kind <;> decide)
  have hdescription := encodes_string room description
  cases value with
  | none =>
    have hplain : MembersPlain room [("type", .str kind.name), ("description", .str description)] :=
      ⟨hkind.plain, hdescription.plain, trivial⟩
    refine ⟨⟨Nat.succ_pos _, hplain⟩, fun m => ?_⟩
    simp [decode, toJson, objOf, hkind.decodes, hdescription.decodes,
      Decode.Record.settle_eq_ok m hplain]
  | some value =>
    have hvalue := (encodes_string room value).some nofun
    have hplain : MembersPlain room [("type", .str kind.name), ("value", .str value),
        ("description", .str description)] :=
      ⟨hkind.plain, hvalue.plain, hdescription.plain, trivial⟩
    refine ⟨⟨Nat.succ_pos _, hplain⟩, fun m => ?_⟩
    simp [decode, toJson, objOf, hkind.decodes, hdescription.decodes, hvalue.decodes,
      Decode.Record.settle_eq_ok m hplain]

end Expectation

namespace Program

namespace Constant

theorem encodes (c : Constant) : Encodes (room + 2) decode c.toJson c := by
  cases c with
  | string value =>
    have hvalue := encodes_string (room + 1) value
    have hplain : MembersPlain (room + 1) [("value", .str value)] := ⟨hvalue.plain, trivial⟩
    refine ⟨⟨Nat.succ_pos _, trivial, hplain⟩, fun m => ?_⟩
    rw [decode, toJson, tagged_obj (a := .string) hplain (by simp) rfl]
    simp [ofContent, hvalue.decodes, Decode.Record.settle_eq_ok _ hplain]
  | pattern source ignoreCase multiLine =>
    have hsource := encodes_string (room + 1) source
    have hflag (b : Bool) := encodes_bool (room + 1) b
    have hplain : MembersPlain (room + 1) [("pattern", .str source),
        ("ignore_case", .bool ignoreCase), ("multi_line", .bool multiLine)] :=
      ⟨hsource.plain, trivial, trivial, trivial⟩
    refine ⟨⟨Nat.succ_pos _, trivial, hplain⟩, fun m => ?_⟩
    rw [decode, toJson, tagged_obj (a := .pattern) hplain (by simp) rfl]
    simp [ofContent, hsource.decodes, (hflag _).decodes, Decode.Record.settle_eq_ok _ hplain]
  | expected e =>
    have he := e.encodes room
    have hplain : MembersPlain (room + 1) [("expected", e.toJson)] := ⟨he.plain, trivial⟩
    refine ⟨⟨Nat.succ_pos _, trivial, hplain⟩, fun m => ?_⟩
    rw [decode, toJson, tagged_obj (a := .expected) hplain (by simp) rfl]
    simp [ofContent, he.decodes, Decode.Record.settle_eq_ok _ hplain]

end Constant

theorem Action.encodes (a : Action) : Encodes (room + 2) decode a.toJson a := by
  have hparams := Encodes.list (l := a.params) fun s _ => encodes_string room s
  have hcode := encodes_string (room + 1) a.code
  have hplain : a.toJson.Plain (room + 2) := ⟨Nat.succ_pos _, hparams.plain, hcode.plain, trivial⟩
  refine ⟨hplain, fun m => ?_⟩
  simp [decode, toJson, hparams.decodes, hcode.decodes, Decode.Record.settle_eq_ok m hplain.2]

theorem Rule.encodes (r : Rule) : Encodes (room + 2) decode r.toJson r := by
  have hname := encodes_string (room + 1) r.name
  have hmemoize := encodes_bool (room + 1) r.memoize
  have hcode := Encodes.list (l := r.code.toList) fun w _ => encodes_word room w
  have hplain : r.toJson.Plain (room + 2) :=
    ⟨Nat.succ_pos _, hname.plain, hmemoize.plain, hcode.plain, trivial⟩
  refine ⟨hplain, fun m => ?_⟩
  simp [decode, toJson, hname.decodes, hmemoize.decodes, hcode.decodes,
    Decode.Record.settle_eq_ok m hplain.2]

/-- The indices of a program are those of a machine. -/
structure Fits (p : Program) : Prop where
  starters : ∀ index ∈ p.starters, index < UInt64.size
  defaultStart : p.defaultStart < UInt64.size

instance (p : Program) : Decidable p.Fits :=
  decidable_of_iff ((∀ index ∈ p.starters, index < UInt64.size) ∧ p.defaultStart < UInt64.size)
    ⟨fun h => ⟨h.1, h.2⟩, fun h => ⟨h.starters, h.defaultStart⟩⟩

theorem encodes {p : Program} (h : p.Fits) : Encodes (room + 4) decode p.toJson p := by
  have hrules := Encodes.list (l := p.rules.toList) fun r _ => r.encodes room
  have hconstants := Encodes.list (l := p.constants.toList) fun c _ => c.encodes room
  have hactions := Encodes.list (l := p.actions.toList) fun a _ => a.encodes room
  have hstarters := Encodes.list (l := p.starters) fun i hi =>
    encodes_count (room + 2) (h.starters i hi)
  have hdefault := encodes_count (room + 3) h.defaultStart
  have hflag (b : Bool) := encodes_bool (room + 3) b
  have hplain : p.toJson.Plain (room + 4) :=
    ⟨Nat.succ_pos _, hrules.plain, hconstants.plain, hactions.plain, hstarters.plain,
      hdefault.plain, trivial, trivial, trivial, trivial⟩
  refine ⟨hplain, fun m => ?_⟩
  simp [decode, toJson, hrules.decodes, hconstants.decodes, hactions.decodes, hstarters.decodes,
    hdefault.decodes, (hflag _).decodes, Decode.Record.settle_eq_ok m hplain.2]

end Program

/-! ## Grammars -/

theorem ClassPart.encodes (part : ClassPart) : Encodes (room + 1) decode part.toJson part := by
  cases part with
  | char c =>
    have hc := encodes_char (room + 1) c
    refine ⟨hc.plain, fun m => ?_⟩
    rw [decode, toJson, hold_of_plain hc.plain, ok_bind]
    dsimp only
    rw [hc.decodes]
    rfl
  | range first last =>
    have hpair := (encodes_char room first).pair (encodes_char room last)
    refine ⟨hpair.plain, fun m => ?_⟩
    rw [decode, toJson, hold_of_plain hpair.plain, ok_bind]
    dsimp only
    rw [hpair.decodes]
    rfl

namespace Param

theorem Draft.read_type {m : Mode} {kind : Kind} {j : Json}
    (h : Decode.tag Kind.ofName? m j = .ok kind) :
    Draft.read m .empty "type" j = .ok (.kind kind) := by
  unfold Draft.read
  rw [if_pos rfl, h]
  rfl

theorem Draft.read_value {m : Mode} {kind : Kind} {j : Json} {p : Param}
    (h : kind.value m j = .ok p) : Draft.read m (.kind kind) "value" j = .ok (.whole p) := by
  unfold Draft.read
  rw [if_neg (by decide), if_pos rfl]
  dsimp only
  rw [h]
  rfl

/-- A kind and a value, in this order, make up a parameter. -/
theorem encodes_typed {p : Param} {k : Kind} {word : String} {j : Json}
    (hword : Kind.ofName? word = some k) (hj : Encodes (room + 1) k.value j p) :
    Encodes (room + 2) decode (.obj [("type", .str word), ("value", j)]) p := by
  have htag := encodes_tag (room + 1) hword
  refine ⟨⟨Nat.succ_pos _, htag.plain, hj.plain, trivial⟩, fun m => ?_⟩
  rw [decode, Draft.readAll, Draft.read_type (htag.decodes m), ok_bind, Draft.readAll,
    Draft.read_value (hj.decodes m)]
  rfl

theorem encodes (p : Param) : Encodes (room + 2) decode p.toJson p := by
  cases p with
  | keyword word =>
    exact encodes_typed room (k := .keyword) rfl ⟨trivial, fun _ => rfl⟩
  | string text =>
    exact encodes_typed room (k := .string) rfl ⟨trivial, fun _ => rfl⟩
  | number n =>
    have hn := encodes_int64 (room + 1) n
    refine encodes_typed room (k := .number) rfl ⟨hn.plain, fun m => ?_⟩
    rw [Kind.value, hn.decodes]
    rfl
  | range min max =>
    have hbound (bound : Option Int64) : Encodes room (Decode.option Decode.int64)
        (.opt (.int ·.toInt) bound) bound :=
      .option (fun n _ => encodes_int64 room n) fun _ => int_ne_null _
    have hpair := (hbound min).pair (hbound max)
    refine encodes_typed room (k := .range) rfl ⟨hpair.plain, fun m => ?_⟩
    rw [Kind.value, hpair.decodes]
    rfl

end Param

namespace Annotation

/-- The place of an annotation fits. -/
def Fits (a : Annotation) : Prop := ∀ l ∈ a.location, l.Fits

instance (a : Annotation) : Decidable a.Fits :=
  inferInstanceAs (Decidable (∀ l ∈ a.location, l.Fits))

theorem encodes {a : Annotation} (h : a.Fits) : Encodes (room + 4) decode a.toJson a := by
  obtain ⟨name, params, location⟩ := a
  have hname := encodes_string (room + 3) name
  have hparams := Encodes.list (l := params) fun p _ => p.encodes room
  cases location with
  | none =>
    have hplain : MembersPlain (room + 3) [("name", .str name),
        ("params", .arr (params.map Param.toJson))] := ⟨hname.plain, hparams.plain, trivial⟩
    refine ⟨⟨Nat.succ_pos _, hplain⟩, fun m => ?_⟩
    simp [decode, toJson, objOf, hname.decodes, hparams.decodes,
      Decode.Record.settle_eq_ok m hplain]
  | some l =>
    have hl := (Location.encodes (room + 1) (h l rfl)).some nofun
    have hplain : MembersPlain (room + 3) [("name", .str name),
        ("params", .arr (params.map Param.toJson)), ("location", l.toJson)] :=
      ⟨hname.plain, hparams.plain, hl.plain, trivial⟩
    refine ⟨⟨Nat.succ_pos _, hplain⟩, fun m => ?_⟩
    simp [decode, toJson, objOf, hname.decodes, hparams.decodes, hl.decodes,
      Decode.Record.settle_eq_ok m hplain]

end Annotation

/-! Nodes have their place behind the members of their shape. -/

section

variable {room : Nat} {m : Mode} {fields : List (String × Json)}

/-- Members before the place are held. -/
theorem splitLocation_append (hfields : MembersPlain room fields)
    (hnames : ∀ f ∈ fields, f.1 ≠ "location") {after : List (String × Json)}
    {location : Option Location} (h : splitLocation m none after = .ok (location, [])) :
    splitLocation m none (fields ++ after) = .ok (location, fields) := by
  induction fields with
  | nil => exact h
  | cons f fields ih =>
    obtain ⟨hne, hnames⟩ := List.forall_mem_cons.mp hnames
    rw [List.cons_append, splitLocation, if_neg hne, hold_of_plain hfields.1, ok_bind,
      ih hfields.2 hnames]
    rfl

theorem splitLocation_place {location : Option Location} (h : ∀ l ∈ location, l.Fits) :
    splitLocation m none (location.map fun l => ("location", l.toJson)).toList =
      .ok (location, []) := by
  cases location with
  | none => rfl
  | some l =>
    have hl := (Location.encodes 0 (h l rfl)).some nofun
    rw [Option.map_some, Option.toList_some, splitLocation, if_pos rfl, if_neg (by decide),
      hl.decodes]
    rfl

end

namespace Shape

/-- The numbers of the children are those of a machine. -/
def Fits (s : Shape) : Prop := ∀ e ∈ s.children, e < UInt32.size

instance (s : Shape) : Decidable s.Fits :=
  inferInstanceAs (Decidable (∀ e ∈ s.children, e < UInt32.size))

theorem encodes_id {e : NodeId} (h : e < UInt32.size) :
    Encodes room (fun m j => (Decode.word m j).map (·.toNat)) (.nat e) e := by
  have hword := encodes_word room (UInt32.ofNat e)
  have hsame : (UInt32.ofNat e).toNat = e := UInt32.toNat_ofNat_of_lt' h
  rw [hsame] at hword
  refine ⟨hword.plain, fun m => ?_⟩
  rw [hword.decodes]
  exact congrArg Except.ok hsame

variable {s : Shape}

theorem names_fields (s : Shape) : ∀ f ∈ s.fields, f.1 ≠ "location" ∧ f.1 ≠ "type" := by
  cases s <;> simp [fields]

/-- The members of a shape are plain, and with the tag they make up the shape again. -/
theorem encodes_fields (h : s.Fits) :
    MembersPlain (room + 2) s.fields ∧ ofContent s.tag (.obj s.fields) = .ok s := by
  have hid (e : NodeId) (he : e ∈ s.children) := encodes_id (room + 2) (h e he)
  have hstring := encodes_string (room + 2)
  have hflag := encodes_bool (room + 2)
  cases s with
  | named name e =>
    have he := hid e (by simp [children, singleChild?])
    have hplain : MembersPlain (room + 2) [("name", .str name), ("expression", .nat e)] :=
      ⟨trivial, he.plain, trivial⟩
    refine ⟨hplain, ?_⟩
    simp [ofContent, tag, fields, heldRecord, (hstring _).decodes, he.decodes,
      Decode.Record.settle_eq_ok _ hplain]
  | action e code =>
    have he := hid e (by simp [children, singleChild?])
    have hplain : MembersPlain (room + 2) [("expression", .nat e), ("code", .str code)] :=
      ⟨he.plain, trivial, trivial⟩
    refine ⟨hplain, ?_⟩
    simp [ofContent, tag, fields, heldRecord, (hstring _).decodes, he.decodes,
      Decode.Record.settle_eq_ok _ hplain]
  | labeled label e =>
    have he := hid e (by simp [children, singleChild?])
    have hlabel : Encodes (room + 2) (Decode.option Decode.string) (.opt .str label) label :=
      .option (fun s _ => hstring s) str_ne_null
    have hplain : MembersPlain (room + 2) [("label", .opt .str label), ("expression", .nat e)] :=
      ⟨hlabel.plain, he.plain, trivial⟩
    refine ⟨hplain, ?_⟩
    simp [ofContent, tag, fields, heldRecord, hlabel.decodes, he.decodes,
      Decode.Record.settle_eq_ok _ hplain]
  | choice es | sequence es =>
    have hes : Encodes (room + 2) (Decode.list fun m j => (Decode.word m j).map (·.toNat))
        (.arr (es.map .nat)) es := .list fun e he => encodes_id _ (h e he)
    have hplain (name : String) : MembersPlain (room + 2) [(name, .arr (es.map .nat))] :=
      ⟨hes.plain, trivial⟩
    refine ⟨hplain _, ?_⟩
    simp [ofContent, tag, fields, heldRecord, hes.decodes,
      Decode.Record.settle_eq_ok _ (hplain _)]
  | text e | simpleAnd e | simpleNot e | optional e | zeroOrMore e | oneOrMore e =>
    have he := hid e (by simp [children, singleChild?])
    have hplain : MembersPlain (room + 2) [("expression", .nat e)] := ⟨he.plain, trivial⟩
    refine ⟨hplain, ?_⟩
    simp [ofContent, tag, fields, heldRecord, he.decodes, Decode.Record.settle_eq_ok _ hplain]
  | range min max e delimiter =>
    have he := hid e (by simp [children])
    have hmin := encodes_word (room + 2) min
    have hmax : Encodes (room + 2) (Decode.option Decode.word) (.opt (.nat ·.toNat) max) max :=
      .option (fun w _ => encodes_word _ w) fun _ => nat_ne_null _
    have hdelimiter : Encodes (room + 2)
        (Decode.option fun m j => (Decode.word m j).map (·.toNat)) (.opt .nat delimiter)
        delimiter :=
      .option (fun d hd => hid d (by simp [children, Option.mem_def.mp hd])) nat_ne_null
    have hplain : MembersPlain (room + 2) [("min", .nat min.toNat),
        ("max", .opt (.nat ·.toNat) max), ("expression", .nat e),
        ("delimiter", .opt .nat delimiter)] :=
      ⟨hmin.plain, hmax.plain, he.plain, hdelimiter.plain, trivial⟩
    refine ⟨hplain, ?_⟩
    simp [ofContent, tag, fields, heldRecord, hmin.decodes, hmax.decodes, he.decodes,
      hdelimiter.decodes, Decode.Record.settle_eq_ok _ hplain]
  | semanticAnd code | semanticNot code | code code =>
    have hplain : MembersPlain (room + 2) [("code", .str code)] := ⟨trivial, trivial⟩
    refine ⟨hplain, ?_⟩
    simp [ofContent, tag, fields, heldRecord, (hstring _).decodes,
      Decode.Record.settle_eq_ok _ hplain]
  | ruleRef name =>
    have hplain : MembersPlain (room + 2) [("name", .str name)] := ⟨trivial, trivial⟩
    refine ⟨hplain, ?_⟩
    simp [ofContent, tag, fields, heldRecord, (hstring _).decodes,
      Decode.Record.settle_eq_ok _ hplain]
  | literal value ignoreCase =>
    have hplain : MembersPlain (room + 2) [("value", .str value),
        ("ignore_case", .bool ignoreCase)] := ⟨trivial, trivial, trivial⟩
    refine ⟨hplain, ?_⟩
    simp [ofContent, tag, fields, heldRecord, (hstring _).decodes, (hflag _).decodes,
      Decode.Record.settle_eq_ok _ hplain]
  | charClass parts inverted ignoreCase raw =>
    have hparts := Encodes.list (l := parts) fun part _ => part.encodes room
    have hplain : MembersPlain (room + 2) [("parts", .arr (parts.map ClassPart.toJson)),
        ("inverted", .bool inverted), ("ignore_case", .bool ignoreCase), ("raw_text", .str raw)] :=
      ⟨hparts.plain, trivial, trivial, trivial, trivial⟩
    refine ⟨hplain, ?_⟩
    simp [ofContent, tag, fields, heldRecord, hparts.decodes, (hstring _).decodes,
      (hflag _).decodes, Decode.Record.settle_eq_ok _ hplain]
  | regex value ignoreCase multiLine raw =>
    have hplain : MembersPlain (room + 2) [("value", .str value),
        ("ignore_case", .bool ignoreCase), ("multi_line", .bool multiLine),
        ("raw_text", .str raw)] := ⟨trivial, trivial, trivial, trivial, trivial⟩
    refine ⟨hplain, ?_⟩
    simp [ofContent, tag, fields, heldRecord, (hstring _).decodes, (hflag _).decodes,
      Decode.Record.settle_eq_ok _ hplain]
  | any | epsilon =>
    refine ⟨trivial, ?_⟩
    simp [ofContent, tag]
    rfl

end Shape

namespace Node

/-- The shape of a node and its place fit. -/
structure Fits (n : Node) : Prop where
  shape : n.shape.Fits
  location : ∀ l ∈ n.location, l.Fits

instance (n : Node) : Decidable n.Fits :=
  decidable_of_iff (n.shape.Fits ∧ ∀ l ∈ n.location, l.Fits)
    ⟨fun h => ⟨h.1, h.2⟩, fun h => ⟨h.shape, h.location⟩⟩

theorem encodes {n : Node} (h : n.Fits) : Encodes (room + 3) decode n.toJson n := by
  obtain ⟨hfields, hcontent⟩ := Shape.encodes_fields room h.shape
  have hnames := Shape.names_fields n.shape
  have htyped : MembersPlain (room + 2) (("type", .str n.shape.tag) :: n.shape.fields) :=
    ⟨trivial, hfields⟩
  have hplace : MembersPlain (room + 2)
      (n.location.map fun l => ("location", l.toJson)).toList := by
    cases hlocation : n.location with
    | none => trivial
    | some l => exact ⟨(Location.encodes _ (h.location l hlocation)).plain, trivial⟩
  have hplain : MembersPlain (room + 2) (("type", .str n.shape.tag) :: n.shape.fields ++
      (n.location.map fun l => ("location", l.toJson)).toList) := by
    rw [membersPlain_iff] at htyped hplace ⊢
    exact List.forall_mem_append.mpr ⟨htyped, hplace⟩
  have htag : ((Shape.tags.map fun t => (t, t)).find? (·.1 = n.shape.tag)).map (·.2) =
      some n.shape.tag := by
    cases n.shape <;> rfl
  have hothers : ∀ f ∈ ("type", Json.str n.shape.tag) :: n.shape.fields, f.1 ≠ "location" :=
    List.forall_mem_cons.mpr ⟨by simp, fun f hf => (hnames f hf).1⟩
  refine ⟨⟨Nat.succ_pos _, hplain⟩, fun m => ?_⟩
  rw [decode, toJson, decodeLocated,
    splitLocation_append htyped hothers (splitLocation_place h.location), ok_bind]
  dsimp only
  rw [tagged_obj hfields (fun f hf => (hnames f hf).2) htag, ok_bind]
  dsimp only
  rw [hcontent]
  rfl

end Node

namespace Rule

/-- The root of a rule, its annotations and its place fit. -/
structure Fits (r : Rule) : Prop where
  expression : r.expression < UInt32.size
  annotations : ∀ a ∈ r.annotations, a.Fits
  location : ∀ l ∈ r.location, l.Fits

instance (r : Rule) : Decidable r.Fits :=
  decidable_of_iff (r.expression < UInt32.size ∧ (∀ a ∈ r.annotations, a.Fits) ∧
      ∀ l ∈ r.location, l.Fits)
    ⟨fun h => ⟨h.1, h.2.1, h.2.2⟩, fun h => ⟨h.expression, h.annotations, h.location⟩⟩

theorem encodes {r : Rule} (h : r.Fits) : Encodes (room + 6) decode r.toJson r := by
  obtain ⟨name, expression, annotations, location⟩ := r
  have hname := encodes_string (room + 5) name
  have hroot := Shape.encodes_id (room + 5) h.expression
  have hannotations := Encodes.list (l := annotations) fun a ha =>
    Annotation.encodes room (h.annotations a ha)
  cases location with
  | none =>
    have hplain : MembersPlain (room + 5) [("name", .str name), ("expression", .nat expression),
        ("annotations", .arr (annotations.map Annotation.toJson))] :=
      ⟨hname.plain, hroot.plain, hannotations.plain, trivial⟩
    refine ⟨⟨Nat.succ_pos _, hplain⟩, fun m => ?_⟩
    simp [decode, toJson, objOf, hname.decodes, hroot.decodes, hannotations.decodes,
      Decode.Record.settle_eq_ok m hplain]
  | some l =>
    have hl := (Location.encodes (room + 3) (h.location l rfl)).some nofun
    have hplain : MembersPlain (room + 5) [("name", .str name), ("expression", .nat expression),
        ("annotations", .arr (annotations.map Annotation.toJson)), ("location", l.toJson)] :=
      ⟨hname.plain, hroot.plain, hannotations.plain, hl.plain, trivial⟩
    refine ⟨⟨Nat.succ_pos _, hplain⟩, fun m => ?_⟩
    simp [decode, toJson, objOf, hname.decodes, hroot.decodes, hannotations.decodes, hl.decodes,
      Decode.Record.settle_eq_ok m hplain]

end Rule

namespace Grammar

/-- The rules and the nodes of a grammar fit. -/
structure Fits (g : Grammar) : Prop where
  rules : ∀ r ∈ g.rules, r.Fits
  nodes : ∀ n ∈ g.nodes, n.Fits

instance (g : Grammar) : Decidable g.Fits :=
  decidable_of_iff ((∀ r ∈ g.rules, r.Fits) ∧ ∀ n ∈ g.nodes, n.Fits)
    ⟨fun h => ⟨h.1, h.2⟩, fun h => ⟨h.rules, h.nodes⟩⟩

theorem encodes {g : Grammar} (h : g.Fits) : Encodes (room + 8) decode g.toJson g := by
  obtain ⟨rules, nodes, initializer⟩ := g
  have hrules := Encodes.list (l := rules) fun r hr => Rule.encodes room (h.rules r hr)
  have hnodes := Encodes.list (l := nodes.toList) fun n hn =>
    Node.encodes (room + 3) (h.nodes n (Array.mem_toList_iff.mp hn))
  cases initializer with
  | none =>
    have hplain : MembersPlain (room + 7) [("rules", .arr (rules.map Rule.toJson)),
        ("nodes", .arr (nodes.toList.map Node.toJson))] := ⟨hrules.plain, hnodes.plain, trivial⟩
    refine ⟨⟨Nat.succ_pos _, hplain⟩, fun m => ?_⟩
    simp [decode, toJson, objOf, hrules.decodes, hnodes.decodes,
      Decode.Record.settle_eq_ok m hplain]
  | some code =>
    have hcode := (encodes_string (room + 7) code).some nofun
    have hplain : MembersPlain (room + 7) [("rules", .arr (rules.map Rule.toJson)),
        ("nodes", .arr (nodes.toList.map Node.toJson)), ("initializer", .str code)] :=
      ⟨hrules.plain, hnodes.plain, hcode.plain, trivial⟩
    refine ⟨⟨Nat.succ_pos _, hplain⟩, fun m => ?_⟩
    simp [decode, toJson, objOf, hrules.decodes, hnodes.decodes, hcode.decodes,
      Decode.Record.settle_eq_ok m hplain]

end Grammar

/-- A program with texts that have to be escaped. -/
def Program.escaped : Program where
  rules := #[⟨"start", true, #[28, 0xFFFFFFFF]⟩]
  constants := #[.string "\x01\"\\\n\u2028😀", .pattern "[a-z]+" true false,
    .expected ⟨.endOfInput, none, "end of input"⟩]
  actions := #[⟨["a", "b"], "join"⟩]
  starters := [0]
  defaultStart := 0
  memoize := true
  trace := false
  statistics := false

/-- A grammar with places, parameters and parts that may be missing. -/
def Grammar.placed : Grammar where
  rules := [⟨"start", 2, [⟨"limit", [.number (-5), .range none (some 2), .keyword "all"], none⟩],
    some .atStart⟩]
  nodes := #[⟨.charClass [.char '"', .range 'a' 'z'] true false "[^\"a-z]", some .atStart⟩,
    ⟨.labeled none 0, none⟩, ⟨.range 1 (some 3) 1 none, none⟩]

end PegMachine
