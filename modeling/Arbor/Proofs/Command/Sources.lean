import Arbor.Command.Plan
import Arbor.Proofs.Config.Overriding
import Arbor.Proofs.Value.Reading

namespace Arbor

open Outcome
open Value (Holds)

variable {α : Type}

theorem TreeConfig.override_listed [Scalar α] (c : TreeConfig α) (o : Overrides α) (rules : Table CodePoint Text) :
    override { c with rules := rules } o = (c.override o).map fun c => { c with rules := rules } := by
  rw [override, override]
  dsimp only
  cases (o.apply c.tree).validate with
  | error fault => rfl
  | ok passed => rfl

namespace Preset

def ruleTable (p : Preset) : Table CodePoint Text := p.rules.map fun (symbol, word) => (.scalar symbol, .ofString word)

/-- An object that holds a preset and nothing else: its name, its first word, its number of iterations, its rules in
some order, and its angle as the only parameter. -/
structure HeldBy [Scalar α] (p : Preset) (rules : Table CodePoint Text) (fields : Table Text (Value α)) : Prop where
  name : Value.field? "name" fields = some (.text p.name)
  initiator : Value.field? "axiom" fields = some (.text p.initiator)
  iterations : Value.field? "iterations" fields = some (.int p.iterations)
  listed : Value.field? "rules" fields = some (.object (rules.map TreeConfig.ruleEntry))
  order : p.ruleTable.Perm rules
  tree : ∃ tree, Value.field? "tree" fields = some (.object tree) ∧
    (∃ angle, Value.field? "angle" tree = some angle ∧ angle.IsNumber (Scalar.ofInt p.angle)) ∧
      ∀ name ∈ TreeParams.names, name ≠ "angle" → Value.field? name tree = none
  calm : Value.field? "wind" fields = none

variable [Scalar α]

def config (p : Preset) (rules : Table CodePoint Text) : TreeConfig α :=
  { name := p.name
    initiator := p.initiator
    iterations := p.iterations
    rules := rules
    tree := { TreeParams.standard with angle := Scalar.ofInt p.angle }
    wind := Wind.standard }

theorem HeldBy.described {p : Preset} {rules : Table CodePoint Text} {fields : Table Text (Value α)}
    (held : p.HeldBy rules fields) (started : Text.ofString p.initiator ≠ []) (counted : 0 ≤ p.iterations)
    (usable : (p.config rules : TreeConfig α).tree.Usable) (calm : (Wind.standard : Wind α).Usable) :
    TreeConfig.Described (.object fields) (p.config rules : TreeConfig α) := by
  obtain ⟨tree, grows, ⟨angle, turned, number⟩, bare⟩ := held.tree
  have present {β : Type} {entries : Table Text (Value α)} {name : String} {standard x : β} {means : Value α → β → Prop}
      {v : Value α} (found : Value.field? name entries = some v) (fits : means v x) :
      Holds entries name standard means x := by
    rw [Holds, found]
    exact fits
  have absent {β : Type} {name : String} {standard : β} {means : Value α → β → Prop} (known : name ∈ TreeParams.names)
      (other : name ≠ "angle") : Holds tree name standard means standard := by
    rw [Holds, bare name known other]
  have tended : TreeParams.Described tree (p.config rules : TreeConfig α).tree :=
    { mode := absent (by decide) (by decide)
      startRadius := absent (by decide) (by decide)
      radiusReduction := absent (by decide) (by decide)
      branchLength := absent (by decide) (by decide)
      angle := present turned number
      position := absent (by decide) (by decide)
      radialSegments := absent (by decide) (by decide)
      leafRadius := absent (by decide) (by decide)
      leafSegments := absent (by decide) (by decide)
      usable := usable }
  have still : Holds fields "wind" [] (fun v entries => v = .object entries) [] := by
    rw [Holds, held.calm]
  exact ⟨fields, rfl, present held.initiator rfl, started, present held.iterations rfl, counted,
    present held.listed rfl, present held.name rfl, ⟨tree, present grows rfl, tended⟩, [], still, rfl, rfl, rfl, calm⟩

theorem sound_of_mem {p : Preset} (member : p ∈ all) :
    find? p.name = some p ∧ Text.ofString p.initiator ≠ [] ∧ 0 ≤ p.iterations ∧
      (p.config p.ruleTable : TreeConfig Float).tree.validate = .ok () := by
  revert p
  simp only [all, List.forall_mem_cons]
  refine ⟨?_, ?_, ?_, ?_, ?_, ?_, ?_, ?_, ?_, List.forall_mem_nil _⟩ <;>
    exact ⟨by rfl, by decide, by decide, by rfl⟩

theorem HeldBy.read {p : Preset} (member : p ∈ all) {rules : Table CodePoint Text} {fields : Table Text (Value Float)}
    (held : p.HeldBy rules fields) : TreeConfig.ofValue (.object fields) = .ok (p.config rules) := by
  obtain ⟨-, started, counted, passed⟩ := sound_of_mem member
  have calm : (Wind.standard : Wind Float).validate = .ok () := by rfl
  exact TreeConfig.ofValue_eq_ok.mpr
    (held.described started counted (TreeParams.usable_iff.mp passed) (Wind.usable_iff.mp calm))

omit [Scalar α] in
theorem toValue_entries (p : Preset) (o : Overrides α) : p.toValue o.entries = o.writeInto (p.toValue []) := by
  rfl

omit [Scalar α] in
theorem bare_of_angle (v : Value α) :
    ∀ name ∈ TreeParams.names, name ≠ "angle" → Value.field? name [("angle", v)] = none := by
  simp only [TreeParams.names, List.forall_mem_cons]
  exact ⟨fun _ => rfl, fun _ => rfl, fun _ => rfl, fun _ => rfl, fun other => absurd rfl other, fun _ => rfl,
    fun _ => rfl, fun _ => rfl, fun _ => rfl, List.forall_mem_nil _⟩

theorem held_toValue {p : Preset} (near : (Scalar.ofInt? p.angle : Option α) = some (Scalar.ofInt p.angle)) :
    ∃ fields, (p.toValue [] : Value α) = .object fields ∧ p.HeldBy p.ruleTable fields := by
  refine ⟨_, rfl, rfl, rfl, rfl, ?_, .refl _, ⟨_, rfl, ⟨_, rfl, .int near⟩, bare_of_angle _⟩, rfl⟩
  rw [ruleTable, List.map_map]
  rfl

theorem ofPreset_eq_override {p : Preset} (member : p ∈ all) (o : Overrides Float) :
    TreeConfig.ofPreset p.name o.entries = (p.config p.ruleTable).override o := by
  obtain ⟨found, -, -, passed⟩ := sound_of_mem member
  have turned : Scalar.isFinite (Scalar.ofInt p.angle : Float) = true :=
    (TreeParams.usable_iff.mp passed).finite _ (by simp [config])
  obtain ⟨fields, shape, held⟩ := p.held_toValue (α := Float) (if_pos turned)
  have unnamed : Value.field? "name" o.entries = none := by
    obtain ⟨radius, reduction, length, angle, mode⟩ := o
    cases radius <;> cases reduction <;> cases length <;> cases angle <;> cases mode <;> rfl
  rw [TreeConfig.ofPreset, unnamed, found]
  change TreeConfig.ofValue (p.toValue o.entries) = _
  rw [toValue_entries, shape]
  exact TreeConfig.ofValue_writeInto (held.read member) o

end Preset

namespace Command

theorem load_file_eq_preset {p : Preset} (member : p ∈ Preset.all) {read : Reader} {path : Text} {bytes : ByteArray}
    {text : String} {fields : Table Text (Value Float)} {rules : Table CodePoint Text} (opened : read path = .ok bytes)
    (decoded : String.fromUTF8? bytes = some text)
    (parsed : Value.ofText Value.depthLimit text.toList = .ok (.object fields)) (held : p.HeldBy rules fields)
    (iterations : Choice Int) (o : Overrides Float) :
    Source.load read ⟨.usual, some path, iterations, o, []⟩ =
      (Source.load read ⟨.value p.name, none, iterations, o, []⟩).map fun c => { c with rules := rules } := by
  have file : TreeConfig.ofBytes path bytes = .ok (p.config rules) := by
    rw [TreeConfig.ofBytes, decoded]
    change TreeConfig.ofText path text.toList = _
    rw [TreeConfig.ofText, parsed]
    exact held.read member
  have filled (q : TreeParams Float) : refuseBlanks q [] = .ok () := rfl
  have preset := Preset.ofPreset_eq_override member o
  have listed : (p.config rules).override o =
      ((p.config p.ruleTable).override o).map fun c => { c with rules := rules } :=
    TreeConfig.override_listed (p.config p.ruleTable) o rules
  simp only [Source.load, Source.entries, List.map_nil, List.append_nil, Choice.get, Choice.toOption, opened, file,
    ok_bind, filled, preset, listed]
  cases (p.config p.ruleTable).override o with
  | error fault => rfl
  | ok c => cases iterations <;> rfl

/-- To override what has been read of a value is to read the value with the overrides written into it, and what is
refused then is refused for a parameter, in the same words. So a preset and a file that holds it load alike, whatever
is overridden: the same tree, whose rules are listed as in the file, or the same fault. -/
theorem overriding_commutes {α : Type} [Scalar α] :
    (∀ (v : Value α) (c : TreeConfig α), TreeConfig.ofValue v = .ok c → ∀ o : Overrides α,
      (∃ d, c.override o = .ok d ∧ TreeConfig.ofValue (o.writeInto v) = .ok d) ∨
        ∃ fault, c.override o = .error fault ∧ TreeConfig.ofValue (o.writeInto v) = .error fault ∧
          fault.kind = .parameter ∧ fault.isWorded = true) ∧
    ∀ p ∈ Preset.all, ∀ (read : Reader) (path : Text) (bytes : ByteArray) (text : String)
      (fields : Table Text (Value Float)) (rules : Table CodePoint Text),
      read path = .ok bytes → String.fromUTF8? bytes = some text →
        Value.ofText Value.depthLimit text.toList = .ok (.object fields) → p.HeldBy rules fields →
          ∀ (iterations : Choice Int) (o : Overrides Float),
            Source.load read ⟨.usual, some path, iterations, o, []⟩ =
              (Source.load read ⟨.value p.name, none, iterations, o, []⟩).map fun c => { c with rules := rules } := by
  refine ⟨fun v c loaded o => ?_, ?_⟩
  · rw [TreeConfig.ofValue_writeInto loaded o]
    cases outcome : c.override o with
    | ok d => exact .inl ⟨d, rfl, rfl⟩
    | error fault => exact .inr ⟨fault, rfl, rfl, TreeConfig.stopsOnly_override loaded o fault outcome⟩
  · intro p member read path bytes text fields rules opened decoded parsed held
    exact load_file_eq_preset member opened decoded parsed held

/-- A preset as the text of a file, with the second rule first. -/
def turnedText : String :=
  "\x7b\"name\":\"Preset 3\",\"axiom\":\"AB\",\"iterations\":6,\"rules\":\x7b\"B\":\"f[-A]B\",\"A\":\"f[+B]A\"\x7d,\"tree\":\x7b\"angle\":10\x7d\x7d"

def turnedRules : Table CodePoint Text := [('B', "f[-A]B"), ('A', "f[+B]A")]

def turnedFields : Table Text (Value Float) :=
  [("name", .text "Preset 3"), ("axiom", .text "AB"), ("iterations", .int 6),
   ("rules", .object [(['B'], .text "f[-A]B"), (['A'], .text "f[+B]A")]), ("tree", .object [("angle", .int 10)])]

theorem read_turnedText : Value.ofText Value.depthLimit turnedText.toList = .ok (.object turnedFields) := by
  have whole : Value.value Value.depthLimit (turnedText.toList.length + 1) turnedText.toList =
      .ok (.object turnedFields, []) := by
    -- Every field leaves what follows it, so the fields are read one after the other.
    simp only [turnedText, String.reduceToList]
    refine Value.value_object turnedFields ?_ rfl
    refine Value.fields_more rfl (Value.value_text rfl) (Value.fields_more rfl (Value.value_text rfl) ?_)
    refine Value.fields_more rfl rfl ?_
    apply Value.fields_more rfl
    · apply Value.value_object [(['B'], .text "f[-A]B"), (['A'], .text "f[+B]A")] ?rules rfl
      case rules =>
        apply Value.fields_more rfl (Value.value_text rfl)
        exact Value.fields_last rfl (Value.value_text rfl)
    · apply Value.fields_last rfl
      exact Value.value_object [("angle", .int 10)] (Value.fields_last rfl rfl) rfl
  have solid : Value.skipBlanks turnedText.toList = turnedText.toList := rfl
  rw [Value.ofText, solid, whole]
  rfl

def turnedPreset : Preset :=
  { name := "Preset 3"
    initiator := "AB"
    rules := [('A', "f[+B]A"), ('B', "f[-A]B")]
    angle := 10
    iterations := 6
    description := "Two interleaved stems branching to opposite sides" }

theorem held_turnedFields : turnedPreset.HeldBy turnedRules turnedFields where
  name := rfl
  initiator := rfl
  iterations := rfl
  listed := rfl
  order := .swap _ _ _
  tree := ⟨_, rfl, ⟨_, rfl, .int (by rfl)⟩, Preset.bare_of_angle _⟩
  calm := rfl

def turnedConfig : TreeConfig Float :=
  ⟨"Preset 3", "AB", 2, [('A', "f[+B]A"), ('B', "f[-A]B")],
    { TreeParams.standard with mode := .skinned, angle := 10 }, Wind.standard⟩

set_option maxRecDepth 10000 in
theorem load_turnedConfig (read : Reader) :
    Source.load read ⟨.value "Preset 3", none, .value 2, { mode := some .skinned }, []⟩ = .ok turnedConfig := by rfl

theorem overriding_commutes_turned :
    (let o : Overrides Float := { startRadius := some (0.0 / 0.0) }
      ∃ fault, TreeConfig.saplingConfig.override o = .error fault ∧
        TreeConfig.ofValue (o.writeInto (.object (TreeConfig.sapling "note"))) = .error fault ∧
          fault.kind = .parameter) ∧
    Source.load (fun _ => .ok turnedText.toUTF8) ⟨.usual, some "tree", .value 2, { mode := some .skinned }, []⟩ =
      .ok { turnedConfig with rules := turnedRules } := by
  obtain ⟨commutes, loads⟩ := overriding_commutes (α := Float)
  have decoded : String.fromUTF8? turnedText.toUTF8 = some turnedText := dif_pos turnedText.isValidUTF8
  constructor
  · have loaded := TreeConfig.ofValue_eq_ok.mpr TreeConfig.described_sapling
    rcases commutes _ _ loaded { startRadius := some (0.0 / 0.0) } with ⟨d, taken, -⟩ | ⟨fault, refused, same, kind, -⟩
    · cases taken
    · exact ⟨fault, refused, same, kind⟩
  · have file := loads turnedPreset (by decide) (fun _ => .ok turnedText.toUTF8) "tree" _ _ _ _ rfl decoded
      read_turnedText held_turnedFields (.value 2) { mode := some .skinned }
    refine file.trans ?_
    change (Source.load _ ⟨.value "Preset 3", none, .value 2, { mode := some .skinned }, []⟩).map _ = _
    rw [load_turnedConfig]
    rfl

end Command

end Arbor
