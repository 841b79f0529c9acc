import Arbor.Params
import Arbor.Proofs.Outcome
import Arbor.Proofs.Wording

namespace Arbor

variable {α : Type} [Scalar α]

structure TreeParams.Usable (p : TreeParams α) : Prop where
  finite : ∀ x ∈ [p.startRadius, p.radiusReduction, p.branchLength, p.angle, p.leafRadius], Scalar.isFinite x = true
  position : p.position.length = 3 ∧ ∀ x ∈ p.position, Scalar.isFinite x = true
  positive : 0 < p.startRadius ∧ 0 < p.branchLength ∧ 0 < p.leafRadius
  narrowing : 0 < p.radiusReduction ∧ p.radiusReduction ≤ 1
  rings : 3 ≤ p.radialSegments ∧ 3 ≤ p.leafSegments

namespace TreeParams

open Outcome (StopsOnly)

theorem requireFinite_eq_ok {name : String} {x : α} : requireFinite name x = .ok () ↔ Scalar.isFinite x = true := by
  rw [requireFinite]
  split <;> simp_all

theorem requirePositive_eq_ok {name : String} {x : α} : requirePositive name x = .ok () ↔ 0 < x := by
  rw [requirePositive]
  split <;> simp_all

omit [Scalar α] in
theorem requireRing_eq_ok {name : String} {n : Int} : requireRing (α := α) name n = .ok () ↔ 3 ≤ n := by
  rw [requireRing]
  split
  · simp
    omega
  · simp
    omega

omit [Scalar α] in
theorem ofList?_eq_some {xs : List α} {v : Vec3 α} : Vec3.ofList? xs = some v ↔ xs = v.toList := by
  constructor
  · intro made
    unfold Vec3.ofList? at made
    split at made
    · cases made
      rfl
    · cases made
  · rintro rfl
    exact v.ofList?_toList

theorem place_eq_ok {p : TreeParams α} {v : Vec3 α} :
    p.place = .ok v ↔ p.position = v.toList ∧ ∀ x ∈ p.position, Scalar.isFinite x = true := by
  rw [← ofList?_eq_some, ← List.all_eq_true, place]
  cases Vec3.ofList? p.position with
  | none => simp
  | some w =>
      cases p.position.all Scalar.isFinite <;> simp

/-- The counts that make rings, by the names under which they are refused. -/
def counts (p : TreeParams α) : List (String × Int) :=
  [("radial_segments", p.radialSegments), ("leaf_segments", p.leafSegments)]

/-- A fault of the parameters. What its message cannot show is one of their counts. -/
structure Blames (p : TreeParams α) (fault : Fault α) : Prop where
  kind : fault.kind = if fault.isWorded then .parameter else .value
  worded : fault.isWorded = true ∨ ∃ name n, fault = .tooFewSegments name n ∧ (name, n) ∈ p.counts

omit [Scalar α] in
theorem Blames.blamesParameter {p : TreeParams α} {fault : Fault α} (blames : p.Blames fault) :
    fault.BlamesParameter [p.radialSegments, p.leafSegments] := by
  refine ⟨blames.kind, ?_⟩
  cases worded : fault.isWorded with
  | true => exact .inl rfl
  | false =>
      obtain ⟨name, n, rfl, member⟩ := blames.worded.resolve_left (Bool.eq_false_iff.mp worded)
      exact .inr ⟨n, List.mem_map_of_mem (f := Prod.snd) member, worded⟩

theorem stopsOnly_checked (p : TreeParams α) : StopsOnly p.Blames p.checked := by
  have finite (name : String) (x : α) : StopsOnly p.Blames (requireFinite name x) := by
    rw [requireFinite]
    split
    · exact .ok ()
    · exact .error ⟨rfl, .inl rfl⟩
  have positive (name : String) (x : α) : StopsOnly p.Blames (requirePositive name x) := by
    rw [requirePositive]
    split
    · exact .ok ()
    · exact .error ⟨rfl, .inl rfl⟩
  have ring (name : String) (n : Int) (member : (name, n) ∈ p.counts) :
      StopsOnly p.Blames (requireRing (α := α) name n) := by
    rw [requireRing]
    split
    · exact .error ⟨rfl, .inr ⟨name, n, rfl, member⟩⟩
    · exact .ok ()
  have stands : StopsOnly p.Blames p.place := by
    rw [place]
    split
    · exact .error ⟨rfl, .inl rfl⟩
    · split
      · exact .ok _
      · exact .error ⟨rfl, .inl rfl⟩
  refine (finite _ _).bind fun _ _ => (finite _ _).bind fun _ _ => (finite _ _).bind fun _ _ =>
    (finite _ _).bind fun _ _ => (finite _ _).bind fun _ _ => stands.bind fun v _ => (positive _ _).bind fun _ _ => ?_
  have later : StopsOnly p.Blames (do
      requirePositive "branch_length" p.branchLength
      requireRing "radial_segments" p.radialSegments
      requirePositive "leaf_radius" p.leafRadius
      requireRing "leaf_segments" p.leafSegments
      return v) :=
    (positive _ _).bind fun _ _ => (ring _ _ (by simp [counts])).bind fun _ _ => (positive _ _).bind fun _ _ =>
      (ring _ _ (by simp [counts])).bind fun _ _ => .ok v
  split
  · exact .error ⟨rfl, .inl rfl⟩
  · exact later

theorem checked_eq_ok {p : TreeParams α} {v : Vec3 α} : p.checked = .ok v ↔ p.position = v.toList ∧ p.Usable := by
  have stands {rest : Vec3 α → Except (Fault α) (Vec3 α)} :
      (p.place >>= rest) = .ok v ↔ ∃ w, p.place = .ok w ∧ rest w = .ok v := Outcome.bind_eq_ok_iff
  simp only [checked, Outcome.check_eq_ok_iff, stands, Outcome.guard_eq_ok_iff, not_not, requireFinite_eq_ok,
    requirePositive_eq_ok, requireRing_eq_ok, place_eq_ok, Outcome.pure_eq, Except.ok.injEq]
  constructor
  · rintro ⟨thick, narrow, long, turn, leafy, w, ⟨three, finite⟩, positive, narrowing, longer, radial, leaves, ring, rfl⟩
    refine ⟨three, ?_, ⟨by rw [three]; rfl, finite⟩, ⟨positive, longer, leaves⟩, narrowing, radial, ring⟩
    simp [thick, narrow, long, turn, leafy]
  · rintro ⟨three, usable⟩
    have finite := usable.finite
    simp only [List.forall_mem_cons, List.not_mem_nil] at finite
    exact ⟨finite.1, finite.2.1, finite.2.2.1, finite.2.2.2.1, finite.2.2.2.2.1, v, ⟨three, usable.position.2⟩,
      usable.positive.1, usable.narrowing, usable.positive.2.1, usable.rings.1, usable.positive.2.2, usable.rings.2, rfl⟩

theorem validate_eq_error {p : TreeParams α} {fault : Fault α} :
    p.validate = .error fault ↔ p.checked = .error fault := by
  rw [validate]
  cases p.checked with
  | error other => rw [Outcome.error_bind, Except.error.injEq, Except.error.injEq]
  | ok v => simp

theorem validate_eq_ok {p : TreeParams α} : p.validate = .ok () ↔ ∃ v, p.checked = .ok v := by
  rw [validate]
  cases p.checked with
  | error fault => simp
  | ok v => simp

theorem blamesParameter_of_validate {p : TreeParams α} {fault : Fault α} (refused : p.validate = .error fault) :
    fault.BlamesParameter [p.radialSegments, p.leafSegments] :=
  (stopsOnly_checked p fault (validate_eq_error.mp refused)).blamesParameter

theorem usable_iff {p : TreeParams α} : p.validate = .ok () ↔ p.Usable := by
  rw [validate_eq_ok]
  constructor
  · rintro ⟨v, checked⟩
    exact (checked_eq_ok.mp checked).2
  · intro usable
    obtain ⟨x, y, z, three⟩ := List.length_eq_three.mp usable.position.1
    exact ⟨⟨x, y, z⟩, checked_eq_ok.mpr ⟨three, usable⟩⟩

theorem validate_of_few_segments {p : TreeParams α} (usable : p.Usable) {n : Int} (few : n < 3) :
    validate { p with radialSegments := n } = .error (.tooFewSegments "radial_segments" n) := by
  obtain ⟨x, y, z, three⟩ := List.length_eq_three.mp usable.position.1
  have stands : place { p with radialSegments := n } = .ok ⟨x, y, z⟩ := place_eq_ok.mpr ⟨three, usable.position.2⟩
  have ring : requireRing (α := α) "radial_segments" n = .error (.tooFewSegments "radial_segments" n) := if_pos few
  obtain ⟨thick, narrow, long, turn, leafy⟩ : Scalar.isFinite p.startRadius = true ∧
      Scalar.isFinite p.radiusReduction = true ∧ Scalar.isFinite p.branchLength = true ∧ Scalar.isFinite p.angle = true ∧
      Scalar.isFinite p.leafRadius = true := by
    simpa using usable.finite
  obtain ⟨positive, longer, -⟩ := usable.positive
  simp only [validate_eq_error, checked, requireFinite_eq_ok.mpr thick, requireFinite_eq_ok.mpr narrow,
    requireFinite_eq_ok.mpr long, requireFinite_eq_ok.mpr turn, requireFinite_eq_ok.mpr leafy, stands,
    requirePositive_eq_ok.mpr positive, usable.narrowing, requirePositive_eq_ok.mpr longer, ring, Outcome.ok_bind,
    Outcome.error_bind, and_self, not_true_eq_false, if_false]

end TreeParams

end Arbor
