import PegMachine.Analysis.Starters
import PegMachine.Proofs.Decoding

/-!
# Options that were stored

Options are written as a document and read again. All of them come back as they were but for start
rules whose document means something else to a reader: no names at all are the first rule, and names
among which is the star are all rules.
-/

namespace PegMachine

open Json

variable (room : Nat)

namespace StartRules

/-- What start rules are to the reader of their document. -/
def asWritten : StartRules → StartRules
  | .first => .first
  | .listed names =>
    if names.isEmpty then .first else if names.contains "*" then .all else .listed names
  | .all => .all

/-- Start rules whose document means nothing else: there are names, and the star is not one. -/
def MeansNames : StartRules → Prop
  | .listed names => names ≠ [] ∧ "*" ∉ names
  | _ => True

variable {s : StartRules}

theorem asWritten_eq_self_iff : s.asWritten = s ↔ s.MeansNames := by
  cases s with
  | first => simp [asWritten, MeansNames]
  | all => simp [asWritten, MeansNames]
  | listed names =>
    by_cases hempty : names = []
    · simp [asWritten, MeansNames, hempty]
    · by_cases hstar : "*" ∈ names <;> simp [asWritten, MeansNames, hempty, hstar]

theorem encodes_listed (names : List String) :
    Encodes (room + 1) (Decode.list Decode.string) (.arr (names.map .str)) names :=
  .list fun name _ => encodes_string room name

theorem encodes (s : StartRules) : Encodes (room + 1) decode s.toJson s.asWritten := by
  cases s with
  | first => exact ⟨⟨Nat.succ_pos _, trivial⟩, fun m => by cases m <;> rfl⟩
  | all => exact ⟨trivial, fun m => by cases m <;> rfl⟩
  | listed names =>
    have hnames := encodes_listed room names
    refine ⟨hnames.plain, fun m => ?_⟩
    rw [decode, toJson, hold_of_plain hnames.plain, ok_bind]
    dsimp only
    rw [hnames.decodes]
    rfl

/-- A parse may start from the same rules as long as the star is not taken for all of them. -/
theorem starters_asWritten (g : Grammar) (h : ∀ names, s = .listed names → "*" ∉ names) :
    (s.asWritten.resolve g).starters = (s.resolve g).starters := by
  cases s with
  | first => rfl
  | all => rfl
  | listed names =>
    have hstar : names.contains "*" = false := by simpa using h names rfl
    rw [asWritten, hstar]
    split
    · next hempty =>
      rw [List.isEmpty_iff.mp hempty]
      cases hrules : g.rules with
      | nil => simp [resolve, StartRules.names, distinct, hrules]
      | cons r rest =>
        have hfound : (g.ruleIndex? r.name).isSome := by simp [Grammar.ruleIndex?, hrules]
        simp [resolve, StartRules.names, distinct, hrules, hfound]
    · rfl

end StartRules

namespace Outputs

theorem encodes_kind (kind : OutputKind) :
    Encodes room (Decode.tag OutputKind.ofName?) (.str kind.name) kind :=
  encodes_tag room (by cases kind <;> decide)

theorem encodes (o : Outputs) : Encodes (room + 1) decode o.toJson o := by
  cases o with
  | single kind =>
    have hkind := encodes_kind (room + 1) kind
    refine ⟨hkind.plain, fun m => ?_⟩
    rw [decode, toJson, hold_of_plain hkind.plain, ok_bind]
    rw [hkind.decodes]
    rfl
  | several kinds =>
    have hkinds := Encodes.list (f := fun kind => .str kind.name) (l := kinds) fun kind _ =>
      encodes_kind room kind
    refine ⟨hkinds.plain, fun m => ?_⟩
    have hlist : Decode.tag OutputKind.ofName? .held (.arr (kinds.map fun kind => .str kind.name)) =
        .error .mismatch := rfl
    rw [decode, toJson, hold_of_plain hkinds.plain, ok_bind, hlist]
    change (do return Outputs.several (← Decode.list _ .held _)) = _
    rw [hkinds.decodes]
    rfl

end Outputs

namespace Options

theorem encodes (o : Options) :
    Encodes (room + 2) decode o.toJson { o with startRules := o.startRules.asWritten } := by
  have hstart := o.startRules.encodes room
  have houtput := o.output.encodes room
  have hoptimize : Encodes room (Decode.tag Optimize.ofName?) (.str o.optimize.name) o.optimize :=
    encodes_tag room (by cases o.optimize <;> decide)
  have hflag (b : Bool) := (encodes_bool room b).decodes
  have hplain : o.toJson.Plain (room + 2) :=
    ⟨Nat.succ_pos _, hstart.plain, trivial, trivial, trivial, houtput.plain, trivial, trivial,
      trivial, trivial, trivial, trivial⟩
  refine ⟨hplain, fun m => ?_⟩
  simp [decode, toJson, hstart.decodes, houtput.decodes, hoptimize.decodes, hflag,
    Decode.Record.settle_eq_ok m hplain.2]

/-- Options are read back as they were written but for start rules that mean something else to a
reader: no names, and names with the star among them. A parse may start from the same rules of
every grammar as before, as long as the star is not taken for all rules. -/
theorem stored (o : Options) :
    ofText o.toText = .ok { o with startRules := o.startRules.asWritten } ∧
    (ofText o.toText = .ok o ↔ o.startRules.MeansNames) ∧
    ∀ read, ofText o.toText = .ok read →
      (∀ names, o.startRules = .listed names → "*" ∉ names) →
      ∀ g, (read.startRules.resolve g).starters = (o.startRules.resolve g).starters := by
  have hread : ofText o.toText = .ok { o with startRules := o.startRules.asWritten } :=
    (encodes _ o).text_compact
  refine ⟨hread, ?_, fun read hok hstar g => ?_⟩
  · rw [hread, ← StartRules.asWritten_eq_self_iff]
    constructor
    · intro h
      exact congrArg Options.startRules (Except.ok.inj h)
    · intro h
      rw [h]
  · obtain rfl := Except.ok.inj (hread.symm.trans hok)
    exact StartRules.starters_asWritten g hstar

/-- A grammar of two rules, neither of which is called by the star. -/
def pairOfRules : Grammar where
  rules := [⟨"a", 0, [], none⟩, ⟨"b", 0, [], none⟩]
  nodes := #[⟨.any, none⟩]

/-- Start rules of a list of names are read back, and so are the rules that a parse starts from. -/
theorem stored_listed :
    let o : Options := { startRules := .listed ["b", "c"], output := .several [.source, .ast] }
    ofText o.toText = .ok o ∧ ∃ read, ofText o.toText = .ok read ∧
      (read.startRules.resolve pairOfRules).starters = ["b"] := by
  intro o
  obtain ⟨-, hsame, hstarters⟩ := stored o
  have hread : ofText o.toText = .ok o := hsame.mpr ⟨nofun, by decide⟩
  refine ⟨hread, o, hread, (hstarters o hread ?_ pairOfRules).trans (by decide)⟩
  rintro names hnames
  obtain rfl := StartRules.listed.inj hnames
  decide

/-- The star in a list of names is read back as all rules, so that a parse may start from more of
them. -/
theorem listed_star_not_stored :
    let o : Options := { startRules := .listed ["*"] }
    ∃ read, ofText o.toText = .ok read ∧ read ≠ o ∧
      (o.startRules.resolve pairOfRules).starters = ["a"] ∧
      (read.startRules.resolve pairOfRules).starters = ["a", "b"] := by
  intro o
  exact ⟨_, (encodes _ o).text_compact, by decide, by decide, by decide⟩

end Options

end PegMachine
