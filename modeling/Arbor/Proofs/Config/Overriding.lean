import Arbor.Proofs.Config.Acceptance

/-!
# Overridden configurations

It is the same to read a configuration and override its parameters, and to write the overrides among the parameters and
read the configuration then: the same tree comes out, or the same fault.
-/

namespace Arbor

open Outcome

variable {α : Type}

namespace Value

def give (name : String) (value : Option (Value α)) (fields : Table Text (Value α)) : Table Text (Value α) :=
  match value with
  | some v => Table.put (Text.ofString name) v fields
  | none => fields

@[simp] theorem field?_give_self (name : String) (value : Option (Value α)) (fields : Table Text (Value α)) :
    field? name (give name value fields) = value.or (field? name fields) := by
  cases value with
  | none => rfl
  | some v => exact Table.get?_put_self _ v fields

@[simp] theorem field?_give_of_ne {name other : String} (apart : Text.ofString name ≠ Text.ofString other)
    (value : Option (Value α)) (fields : Table Text (Value α)) :
    field? other (give name value fields) = field? other fields := by
  cases value with
  | none => rfl
  | some v => exact Table.get?_put_of_ne apart v fields

end Value

namespace Overrides

/-- Parameters with the overrides written among them. -/
def into (o : Overrides α) (tree : Table Text (Value α)) : Table Text (Value α) :=
  o.entries.foldl (fun table entry => Table.put entry.1 entry.2 table) tree

/-- A configuration with the overrides written among its parameters, which are made where there are none. -/
def writeInto (o : Overrides α) : Value α → Value α
  | .object fields =>
      match Value.field? "tree" fields with
      | some (.object tree) => .object (Table.put "tree" (.object (o.into tree)) fields)
      | _ => .object (Table.put "tree" (.object (o.into [])) fields)
  | v => v

open Value (give) in
theorem into_eq (o : Overrides α) (tree : Table Text (Value α)) :
    o.into tree =
      give "mode" (o.mode.map fun mode => .text mode.name)
        (give "angle" (o.angle.map .real)
          (give "branch_length" (o.branchLength.map .real)
            (give "radius_reduction" (o.radiusReduction.map .real)
              (give "start_radius" (o.startRadius.map .real) tree)))) := by
  obtain ⟨radius, reduction, length, angle, mode⟩ := o
  cases radius <;> cases reduction <;> cases length <;> cases angle <;> cases mode <;> rfl

end Overrides

open Value (Holds IsNumber IsTriple)

namespace Value.Holds

variable {β : Type} {fields written : Table Text (Value α)} {name : String} {standard x : β}
  {means : Value α → β → Prop} (held : Holds fields name standard means x)

include held

theorem kept (found : field? name written = field? name fields) : Holds written name standard means x := by
  rw [Holds, found]
  exact held

theorem overridden {value : β → Value α} (given : Option β) (fits : ∀ y, means (value y) y)
    (found : field? name written = (given.map value).or (field? name fields)) :
    Holds written name standard means (given.getD x) := by
  cases given with
  | none => exact held.kept found
  | some y =>
      rw [Holds, found]
      exact fits y

end Value.Holds

namespace TreeParams

variable [Scalar α]

theorem ofEntries_into {tree : Table Text (Value α)} {p : TreeParams α} (described : Described tree p)
    (o : Overrides α) : ofEntries (o.into tree) = (o.apply p).validate >>= fun _ => .ok (o.apply p) := by
  have startRadius : Holds (o.into tree) "start_radius" _ IsNumber _ :=
    described.startRadius.overridden o.startRadius .real (by simp (disch := decide) [Overrides.into_eq])
  have radiusReduction : Holds (o.into tree) "radius_reduction" _ IsNumber _ :=
    described.radiusReduction.overridden o.radiusReduction .real (by simp (disch := decide) [Overrides.into_eq])
  have branchLength : Holds (o.into tree) "branch_length" _ IsNumber _ :=
    described.branchLength.overridden o.branchLength .real (by simp (disch := decide) [Overrides.into_eq])
  have angle : Holds (o.into tree) "angle" _ IsNumber _ :=
    described.angle.overridden o.angle .real (by simp (disch := decide) [Overrides.into_eq])
  have mode : Holds (o.into tree) "mode" _ (fun v (mode : Mode) => v = .text mode.name) _ :=
    described.mode.overridden o.mode (fun _ => rfl) (by simp (disch := decide) [Overrides.into_eq])
  have position : Holds (o.into tree) "position" _ IsTriple _ :=
    described.position.kept (by simp (disch := decide) [Overrides.into_eq])
  have radialSegments : Holds (o.into tree) "radial_segments" _ (fun v n => v = .int n) _ :=
    described.radialSegments.kept (by simp (disch := decide) [Overrides.into_eq])
  have leafRadius : Holds (o.into tree) "leaf_radius" _ IsNumber _ :=
    described.leafRadius.kept (by simp (disch := decide) [Overrides.into_eq])
  have leafSegments : Holds (o.into tree) "leaf_segments" _ (fun v n => v = .int n) _ :=
    described.leafSegments.kept (by simp (disch := decide) [Overrides.into_eq])
  simp only [ofEntries, Mode.entry_mode.mpr mode, Value.entry_number.mpr startRadius,
    Value.entry_number.mpr radiusReduction, Value.entry_number.mpr branchLength, Value.entry_number.mpr angle,
    Value.entry_triple.mpr position, Value.entry_integer.mpr radialSegments, Value.entry_number.mpr leafRadius,
    Value.entry_integer.mpr leafSegments, ok_bind]
  rfl

theorem worded_of_rings {p : TreeParams α} (rings : 3 ≤ p.radialSegments ∧ 3 ≤ p.leafSegments) :
    StopsOnly (fun fault => fault.isWorded = true) p.validate := by
  -- The same is refused of parameters with the smallest counts, and these are short enough for any message.
  have plain : p.checked = checked { p with radialSegments := 3, leafSegments := 3 } := by
    simp only [checked, place, requireRing_eq_ok.mpr rings.1, requireRing_eq_ok.mpr rings.2,
      requireRing_eq_ok.mpr (le_refl 3)]
  intro fault stopped
  rw [validate_eq_error, plain] at stopped
  rcases (stopsOnly_checked _ fault stopped).worded with worded | ⟨name, n, rfl, member⟩
  · exact worded
  · have three : n = 3 := by
      simp only [counts, List.mem_cons, List.not_mem_nil, Prod.mk.injEq, or_false] at member
      omega
    rw [three]
    exact Decimal.isWritable_of_lt_ten (by decide)

end TreeParams

namespace TreeConfig

variable [Scalar α] {v : Value α} {c : TreeConfig α}

/-- A configuration with overrides written into it is read as the overridden one, or refused as this one is. -/
theorem ofValue_writeInto (read : ofValue v = .ok c) (o : Overrides α) : ofValue (o.writeInto v) = c.override o := by
  obtain ⟨fields, rfl, said⟩ := ofValue_eq_ok.mp read
  obtain ⟨tree, grows, described⟩ := said.tree
  obtain ⟨wind, blows, weather⟩ := said.wind
  have written : o.writeInto (.object fields) = .object (Table.put "tree" (.object (o.into tree)) fields) := by
    rw [Holds] at grows
    rw [Overrides.writeInto]
    cases found : Value.field? "tree" fields with
    | some v =>
        rw [found] at grows
        rw [grows]
    | none =>
        rw [found] at grows
        rw [grows]
  have other {name : String} (apart : Text.ofString "tree" ≠ Text.ofString name) :
      Value.field? name (Table.put "tree" (.object (o.into tree)) fields) = Value.field? name fields :=
    Table.get?_put_of_ne apart _ _
  have initiator := said.initiator.kept (other (by decide))
  have iterations := said.iterations.kept (other (by decide))
  have rules := said.rules.kept (other (by decide))
  have name := said.name.kept (other (by decide))
  have calm := blows.kept (other (by decide))
  have tended : Holds (Table.put "tree" (.object (o.into tree)) fields) "tree" [] (fun v entries => v = .object entries)
      (o.into tree) := by
    rw [Holds, Value.field?, Table.get?_put_self]
  have started : c.initiator.isEmpty = false := by simpa using said.started
  have rule := (mapM_eq_ok_iff fun _ _ => ruleOf_eq_ok).mpr (rfl : c.rules.map (ruleEntry (α := α)) = _)
  rw [written, ofValue]
  simp only [Value.toObject_eq_ok.mpr rfl, ok_bind, Value.entry_text.mpr initiator, started, Bool.false_eq_true,
    if_false, Value.entry_integer.mpr iterations, Int.not_lt.mpr said.counted, Value.entry_object.mpr rules, rule,
    Value.entry_text.mpr name, Value.entry_object.mpr tended, Value.entry_object.mpr calm,
    TreeParams.ofEntries_into described, Wind.ofEntries_eq_ok.mpr weather]
  rw [override]
  cases (o.apply c.tree).validate with
  | error fault => rfl
  | ok passed => rfl

theorem stopsOnly_override (read : ofValue v = .ok c) (o : Overrides α) :
    StopsOnly (fun fault => fault.kind = .parameter ∧ fault.isWorded = true) (c.override o) := by
  have rings := (usable_of_described (ofValue_eq_ok.mp read)).1.rings
  have checked : StopsOnly (fun fault => fault.kind = .parameter ∧ fault.isWorded = true) (o.apply c.tree).validate := by
    intro fault stopped
    have worded := TreeParams.worded_of_rings (p := o.apply c.tree) rings fault stopped
    refine ⟨?_, worded⟩
    rw [(TreeParams.blamesParameter_of_validate stopped).kind, if_pos worded]
  exact checked.bind fun _ _ => .ok _

end TreeConfig

end Arbor
