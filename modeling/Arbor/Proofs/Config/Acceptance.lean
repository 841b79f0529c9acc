import Arbor.Proofs.Config.Description
import Arbor.Proofs.Tree.Building

namespace Arbor

open Outcome

variable {α : Type}

namespace Table

variable {κ ν : Type} [DecidableEq κ]

theorem put_of_not_mem {key : κ} {value : ν} {table : Table κ ν} (fresh : key ∉ keys table) :
    put key value table = table ++ [(key, value)] := by
  induction table with
  | nil => rfl
  | cons pair rest ih =>
      obtain ⟨k, v⟩ := pair
      rw [keys_cons, List.mem_cons, not_or] at fresh
      rw [put, if_neg (Ne.symm fresh.1), ih fresh.2, List.cons_append]

end Table

namespace Grammar

theorem foldlM_add {g : Grammar} {rules : Table CodePoint Text} (distinct : (g.rules.keys ++ rules.keys).Nodup) :
    (rules.map fun rule => ((.text [rule.1] : Value α), some rule.2)).foldlM (fun g rule => g.add rule.1 rule.2) g =
      .ok ⟨g.rules ++ rules.map fun rule => (rule.1, some rule.2)⟩ := by
  -- A symbol that is fresh goes behind the rules that are there, and stays fresh for the rest.
  induction rules generalizing g with
  | nil => rw [List.map_nil, List.foldlM_nil, List.map_nil, List.append_nil, pure_eq]
  | cons rule later ih =>
      have fresh : rule.1 ∉ g.rules.keys := fun old =>
        (List.nodup_append.mp distinct).2.2 _ old _ List.mem_cons_self rfl
      have added : (g.insert rule.1 (some rule.2)).rules = g.rules ++ [(rule.1, some rule.2)] :=
        Table.put_of_not_mem fresh
      have rest : ((g.insert rule.1 (some rule.2)).rules.keys ++ Table.keys later).Nodup := by
        rw [added, Table.keys, List.map_append, List.append_assoc]
        exact distinct
      rw [List.map_cons, List.foldlM_cons]
      refine (ih rest).trans ?_
      rw [added, List.append_assoc]
      rfl

theorem ofRules_of_nodup {rules : Table CodePoint Text} (distinct : rules.keys.Nodup) :
    ofRules (rules.map fun rule => ((.text [rule.1] : Value α), some rule.2)) =
      .ok ⟨rules.map fun rule => (rule.1, some rule.2)⟩ :=
  foldlM_add (g := empty) distinct

end Grammar

namespace Value

/-- Two objects have the same entries by some names. -/
def Agree (names : List String) (a b : Table Text (Value α)) : Prop := ∀ name ∈ names, field? name a = field? name b

/-- Two values are the same, or objects with the same entries by some names. -/
inductive Alike (names : List String) : Value α → Value α → Prop where
  | same (v : Value α) : Alike names v v
  | objects {a b : Table Text (Value α)} (agree : Agree names a b) : Alike names (.object a) (.object b)

theorem entry_congr {β : Type} {names : List String} {a b : Table Text (Value α)} (agree : Agree names a b)
    {name : String} (member : name ∈ names) (standard : β) (read : Value α → Except (Fault α) β) :
    entry a name standard read = entry b name standard read := by
  rw [entry, entry, agree name member]

end Value

def TreeParams.names : List String :=
  ["mode", "start_radius", "radius_reduction", "branch_length", "angle", "position", "radial_segments", "leaf_radius",
   "leaf_segments"]

def Wind.names : List String := ["direction", "strength", "noise_sample"]

def TreeConfig.names : List String := ["axiom", "iterations", "rules", "name"]

variable [Scalar α]

section

variable {a b : Table Text (Value α)}

theorem TreeParams.ofEntries_congr (agree : Value.Agree names a b) : ofEntries a = ofEntries b := by
  simp (disch := decide) only [ofEntries, Value.entry_congr agree]

theorem Wind.ofEntries_congr (agree : Value.Agree names a b) : ofEntries a = ofEntries b := by
  simp (disch := decide) only [ofEntries, Value.entry_congr agree]

omit [Scalar α] in
theorem Value.object_congr {β γ : Type} {names : List String} {make : Table Text (Value α) → Except (Fault α) β}
    (congr : ∀ {a b}, Agree names a b → make a = make b) {name : String} {path : Text}
    (alike : Option.Rel (Alike names) (field? name a) (field? name b)) (rest : β → Except (Fault α) γ) :
    (entry a name [] (toObject path) >>= fun entries => make entries >>= rest) =
      (entry b name [] (toObject path) >>= fun entries => make entries >>= rest) := by
  rw [entry, entry]
  generalize field? name a = x at alike
  generalize field? name b = y at alike
  cases alike with
  | none => rfl
  | some alike =>
      cases alike with
      | same v => rfl
      | objects agree => exact congrArg (· >>= rest) (congr agree)

theorem TreeConfig.ofValue_congr (agree : Value.Agree names a b)
    (trees : Option.Rel (Value.Alike TreeParams.names) (Value.field? "tree" a) (Value.field? "tree" b))
    (winds : Option.Rel (Value.Alike Wind.names) (Value.field? "wind" a) (Value.field? "wind" b)) :
    ofValue (.object a) = ofValue (.object b) := by
  have root (fields : Table Text (Value α)) : (Value.object fields).toObject "root" = .ok fields := rfl
  simp (disch := decide) only [ofValue, root, ok_bind, Value.entry_congr agree,
    Value.object_congr TreeParams.ofEntries_congr trees, Value.object_congr Wind.ofEntries_congr winds]

end

omit [Scalar α] in
def TreeParams.toFields (p : TreeParams α) : Table Text (Value α) :=
  [("start_radius", .real p.startRadius), ("radius_reduction", .real p.radiusReduction),
   ("branch_length", .real p.branchLength), ("angle", .real p.angle), ("mode", .text p.mode.name),
   ("position", .list (p.position.map .real)), ("radial_segments", .int p.radialSegments),
   ("leaf_radius", .real p.leafRadius), ("leaf_segments", .int p.leafSegments)]

omit [Scalar α] in
def Wind.toFields (w : Wind α) : Table Text (Value α) :=
  [("direction", .list (w.direction.map .real)), ("strength", .real w.strength),
   ("noise_sample", w.noise.elim .null .real)]

omit [Scalar α] in
def TreeConfig.toValue (c : TreeConfig α) : Value α :=
  .object
    [("name", .text c.name), ("axiom", .text c.initiator), ("iterations", .int c.iterations),
     ("rules", .object (c.rules.map ruleEntry)), ("tree", .object c.tree.toFields), ("wind", .object c.wind.toFields)]

theorem Value.isTriple_reals {xs : List α} (three : xs.length = 3) : IsTriple (.list (xs.map .real)) xs := by
  refine ⟨_, rfl, by rw [List.length_map, three], ?_⟩
  rw [List.forall₂_map_left_iff]
  exact List.forall₂_same.mpr fun x _ => .real x

theorem TreeParams.described_toFields {p : TreeParams α} (usable : p.Usable) : Described p.toFields p where
  mode := rfl
  startRadius := .real p.startRadius
  radiusReduction := .real p.radiusReduction
  branchLength := .real p.branchLength
  angle := .real p.angle
  position := Value.isTriple_reals usable.position.1
  radialSegments := rfl
  leafRadius := .real p.leafRadius
  leafSegments := rfl
  usable := usable

theorem Wind.described_toFields {w : Wind α} (usable : w.Usable) : Described w.toFields w where
  direction := by
    obtain ⟨x, y, z, three, -⟩ := usable.horizontal
    exact Value.isTriple_reals (by rw [three]; rfl)
  strength := .real w.strength
  noise := by
    obtain ⟨direction, strength, noise⟩ := w
    cases noise with
    | none => exact .null
    | some x => exact .number (.real x)
  usable := usable

theorem Asset.exists_build (apart : Scalar.PositiveApart α) {p : TreeParams α} (usable : p.Usable) {word : Text}
    (room : p.vertexTotal word ≤ 2 ^ 32) : ∃ a, build p word = .ok a :=
  exists_of_fits apart usable (TreeParams.fits_of_room usable room)

namespace TreeConfig

variable {v : Value α} {c : TreeConfig α}

theorem described_toValue (described : Described v c) : Described c.toValue c := by
  obtain ⟨tree, wind⟩ := usable_of_described described
  obtain ⟨fields, -, said⟩ := described
  exact ⟨_, rfl, rfl, said.started, rfl, said.counted, rfl, rfl, ⟨_, rfl, TreeParams.described_toFields tree⟩,
    ⟨_, rfl, Wind.described_toFields wind⟩⟩

/-- What is not described is refused for a parameter, unless it is for a count that is too long for a message. -/
theorem refused_of_not_described
    (near : ∀ path ∈ coordinates, ∀ n, v.Gives path (.int n) → (Scalar.ofInt? n : Option α) ≠ none)
    (undescribed : ¬ ∃ c, Described v c) :
    ∃ fault, ofValue v = .error fault ∧
      (fault.kind = .parameter ∧ fault.isWorded = true ∨
        fault.kind = .value ∧ ∃ name n, fault = .tooFewSegments name n ∧ v.at? ["tree", name] = some (.int n) ∧
          Decimal.isWritable n = false) := by
  cases read : ofValue v with
  | ok c => exact absurd ⟨c, ofValue_eq_ok.mp read⟩ undescribed
  | error fault =>
      refine ⟨fault, rfl, ?_⟩
      cases stopsOnly_ofValue v fault read with
      | reported kind worded => exact .inl ⟨kind, worded⟩
      | oversized member given large => exact absurd large (near _ member _ given)
      | unworded given long => exact .inr ⟨Fault.kind_of_unworded long, _, _, rfl, given, long⟩

theorem builds_of_described (apart : Scalar.PositiveApart α) (described : Described v c)
    (room : c.tree.vertexTotal (c.grammar.expand c.initiator c.iterations.toNat) ≤ 2 ^ 32) :
    ∃ a, Asset.buildGrammar c.tree c.grammar c.initiator c.iterations = .ok a := by
  have usable := (usable_of_described described).1
  obtain ⟨fields, -, said⟩ := described
  have passes := TreeParams.usable_iff.mpr usable
  have counted : ¬ c.iterations < 0 := Int.not_lt.mpr said.counted
  obtain ⟨a, built⟩ := Asset.exists_build apart usable room
  refine ⟨a, ?_⟩
  rw [Asset.buildGrammar, passes, ok_bind, Grammar.generate, Grammar.generations, if_neg counted, ok_bind, pure_eq,
    ok_bind, built]

/-- A value is read exactly when it describes a configuration, and as that one; otherwise it is refused for a parameter,
as far as its whole numbers are near to coordinates where they have to be, or for a count that has too many digits to be
named as one. Entries by other names do not matter, what has been read is read again once it is written out, its rules
are a grammar as they are, and its tree can be built while its vertices can be told apart. -/
theorem accepts_described (apart : Scalar.PositiveApart α) :
    (∀ (v : Value α) (c : TreeConfig α), ofValue v = .ok c ↔ Described v c) ∧
    (∀ v : Value α,
      (∀ path ∈ coordinates, ∀ n, v.Gives path (.int n) → (Scalar.ofInt? n : Option α) ≠ none) →
        (¬ ∃ c, Described v c) →
          ∃ fault, ofValue v = .error fault ∧
            (fault.kind = .parameter ∧ fault.isWorded = true ∨
              fault.kind = .value ∧ ∃ name n, fault = .tooFewSegments name n ∧ v.at? ["tree", name] = some (.int n) ∧
                Decimal.isWritable n = false)) ∧
    (∀ a b : Table Text (Value α), Value.Agree names a b →
      Option.Rel (Value.Alike TreeParams.names) (Value.field? "tree" a) (Value.field? "tree" b) →
        Option.Rel (Value.Alike Wind.names) (Value.field? "wind" a) (Value.field? "wind" b) →
          ofValue (.object a) = ofValue (.object b)) ∧
    ∀ (v : Value α) (c : TreeConfig α), ofValue v = .ok c →
      ofValue c.toValue = .ok c ∧
        (c.rules.keys.Nodup →
          Grammar.ofRules (c.rules.map fun rule => ((.text [rule.1] : Value α), some rule.2)) = .ok c.grammar) ∧
        (c.tree.vertexTotal (c.grammar.expand c.initiator c.iterations.toNat) ≤ 2 ^ 32 →
          ∃ a, Asset.buildGrammar c.tree c.grammar c.initiator c.iterations = .ok a) := by
  refine ⟨fun v c => ofValue_eq_ok, fun v => refused_of_not_described, fun a b => ofValue_congr, ?_⟩
  intro v c read
  have described := ofValue_eq_ok.mp read
  exact ⟨ofValue_eq_ok.mpr (described_toValue described), Grammar.ofRules_of_nodup, builds_of_described apart described⟩

def sapling (remark : Text) : Table Text (Value Float) :=
  [("axiom", .text ['A']), (remark, .null), ("iterations", .int 1), ("rules", .object [(['A'], .text ['f', 'A'])]),
   ("tree", .object [("mode", .text (Mode.name .skinned)), (remark, .list [])])]

def saplingConfig : TreeConfig Float :=
  ⟨"Tree", ['A'], 1, [('A', ['f', 'A'])], { TreeParams.standard with mode := .skinned }, Wind.standard⟩

theorem described_sapling : Described (.object (sapling "note")) saplingConfig := by
  have tree : saplingConfig.tree.validate = .ok () := by rfl
  have wind : saplingConfig.wind.validate = .ok () := by rfl
  refine ⟨_, rfl, rfl, List.cons_ne_nil _ _, rfl, by decide, rfl, rfl, ⟨_, rfl, ?_⟩, ⟨[], rfl, ?_⟩⟩
  · exact ⟨rfl, rfl, rfl, rfl, rfl, rfl, rfl, rfl, rfl, TreeParams.usable_iff.mp tree⟩
  · exact ⟨rfl, rfl, rfl, Wind.usable_iff.mp wind⟩

theorem accepts_described_sapling :
    ofValue (.object (sapling "note")) = .ok saplingConfig ∧
      ofValue (.object (sapling "note")) = ofValue (.object (sapling "color")) ∧
      ofValue saplingConfig.toValue = .ok saplingConfig ∧
      Grammar.ofRules [((.text ['A'] : Value Float), some ['f', 'A'])] = .ok saplingConfig.grammar ∧
      (∃ a, Asset.buildGrammar saplingConfig.tree saplingConfig.grammar ['A'] 1 = .ok a) ∧
      ∃ fault, ofValue (.list [] : Value Float) = .error fault ∧ fault.kind = .parameter := by
  obtain ⟨reads, refuses, ignores, keeps⟩ := accepts_described positiveApart_float
  have read := (reads _ _).mpr described_sapling
  obtain ⟨again, grammar, builds⟩ := keeps _ _ read
  have empty : ∀ path ∈ coordinates, (.list [] : Value Float).at? path = none := by
    simp only [coordinates, List.forall_mem_cons]
    exact ⟨rfl, rfl, rfl, rfl, rfl, rfl, rfl, rfl, rfl, by simp⟩
  have near : ∀ path ∈ coordinates, ∀ n, (.list [] : Value Float).Gives path (.int n) →
      (Scalar.ofInt? n : Option Float) ≠ none := by
    intro path member n given
    simp [Value.Gives, empty path member] at given
  have undescribed : ¬ ∃ c : TreeConfig Float, Described (.list []) c := by
    rintro ⟨c, fields, shape, -⟩
    cases shape
  obtain ⟨fault, refused, ⟨kind, -⟩ | ⟨-, name, n, -, given, -⟩⟩ := refuses _ near undescribed
  case inr => cases given
  refine ⟨read, ignores _ _ ?_ ?_ .none, again, grammar (by decide), builds (by decide), fault, refused, kind⟩
  · simp only [Value.Agree, names, List.forall_mem_cons]
    exact ⟨rfl, rfl, rfl, rfl, by simp⟩
  · refine .some (.objects ?_)
    simp only [Value.Agree, TreeParams.names, List.forall_mem_cons]
    exact ⟨rfl, rfl, rfl, rfl, rfl, rfl, rfl, rfl, rfl, by simp⟩

def trunk (sides : Int) : Value Float :=
  .object [("axiom", .text ['f']), ("tree", .object [("radial_segments", .int sides)])]

theorem ofValue_trunk {sides : Int} (few : sides < 3) :
    ofValue (trunk sides) = .error (.tooFewSegments "radial_segments" sides) := by
  have usable : (TreeParams.standard : TreeParams Float).Usable := TreeParams.usable_iff.mp (by rfl)
  have refused := TreeParams.validate_of_few_segments usable few
  have read : TreeParams.ofEntries ([("radial_segments", .int sides)] : Table Text (Value Float)) =
      .error (.tooFewSegments "radial_segments" sides) := by
    change (TreeParams.validate { (TreeParams.standard : TreeParams Float) with radialSegments := sides } >>= _) = _
    rw [refused]
    rfl
  change (TreeParams.ofEntries ([("radial_segments", .int sides)] : Table Text (Value Float)) >>= _) = _
  rw [read]
  rfl

/-- A number of sides below three that has too many digits is not refused as a parameter, although no coordinate is given
as a whole number. -/
theorem overlong_trunk_unnamed :
    (∀ path ∈ coordinates, ∀ n, ¬ (trunk Decimal.overlong).Gives path (.int n)) ∧
      ∃ fault, ofValue (trunk Decimal.overlong) = .error fault ∧ fault.kind ≠ .parameter := by
  have absent : ∀ path ∈ coordinates, (trunk Decimal.overlong).at? path = none := by
    simp only [coordinates, List.forall_mem_cons]
    exact ⟨rfl, rfl, rfl, rfl, rfl, rfl, rfl, rfl, rfl, by simp⟩
  have few : Decimal.overlong < 3 := Int.lt_trans Decimal.overlong_neg (by decide)
  have unworded : (Fault.tooFewSegments "radial_segments" Decimal.overlong : Fault Float).isWorded = false :=
    Decimal.isWritable_overlong
  refine ⟨fun path member n given => ?_, _, ofValue_trunk few, ?_⟩
  · simp [Value.Gives, absent path member] at given
  rw [Fault.kind_of_unworded unworded]
  decide

end TreeConfig

end Arbor
