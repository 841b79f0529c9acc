import Arbor.Proofs.Command.Planning
import Arbor.Proofs.Tree.Swaying
import Arbor.Proofs.Wind.Gusting

/-!
# Frames

The frames of a tree in the wind. They are made one by one, each at its own time; none of them fails unless all of them
do.
-/

open Arbor.Outcome

namespace Arbor.Command

/-- A seed that has been given, but is none that gusts can be made from. -/
def Choice.IsNoSeed : Choice Int → Prop
  | .usual => False
  | .nothing => True
  | .value s => s < 0 ∨ 2 ^ 32 ≤ s

namespace Task

variable {a : Asset Float} {wind : Wind Float} {gusts : Option (Gusts Float)} {mesh : Mesh Float}
variable {r time : Float} {rate : Choice Float}

theorem pose_of_sway {sway : List (Vec3 Float)} (swayed : a.sway time wind SwaySettings.standard 0 = .ok sway)
    (held : a.mesh? = some mesh) :
    pose a time wind =
      match a.mode with
      | .skinned => do return (← (← a.requireSkeleton).skin mesh (some sway)).map Vec3.single
      | .static => .ok ((mesh.positions.zip sway).map fun (p, s) => (p + s).single) := by
  rw [pose, swayed, ok_bind, Asset.requireMesh_of_held held, ok_bind]
  cases a.mode <;> rfl

theorem exists_pose (held : a.mesh? = some mesh) (movable : a.Movable mesh) (usable : wind.Usable)
    (blows : a.mode = .static → ¬ wind.Faint) (time : Float) :
    ∃ vertices, pose a time wind = .ok vertices ∧ a.Shows time wind vertices := by
  cases mode : a.mode with
  | static =>
      obtain ⟨sway, swayed, length⟩ := Asset.exists_sway_of_still held movable usable mode (blows mode)
      refine ⟨_, (pose_of_sway swayed held).trans (by rw [mode]), mesh, sway, held, swayed, ?_, ?_⟩
      · rw [List.length_map, List.length_zip, length]
        exact Nat.min_self _
      · rw [mode]
        exact ⟨length, rfl⟩
  | skinned =>
      obtain ⟨s, sway, posed, bones, swayed, length, followed, counted⟩ :=
        Asset.exists_sway_of_bending held movable usable mode
      refine ⟨posed.map Vec3.single, (pose_of_sway swayed held).trans ?_, mesh, sway, held, swayed, ?_, ?_⟩
      · rw [mode]
        dsimp only
        rw [Asset.requireSkeleton, bones, ok_bind, followed]
        rfl
      · rw [List.length_map, counted]
      · rw [mode]
        exact ⟨s, posed, bones, length, followed, rfl⟩

theorem pose_of_faint (held : a.mesh? = some mesh) (movable : a.Movable mesh) (usable : wind.Usable)
    (mode : a.mode = .static) (faint : wind.Faint) : pose a time wind = .error (.windVertical wind.direction) := by
  rw [pose, Asset.sway_of_faint held movable usable mode faint, error_bind]

theorem full_of_gustsOf {chance : Nat → Array UInt32} {noise : Bool} {seed : Choice Int}
    (blown : gustsOf chance noise seed = .ok gusts) : ∀ g, gusts = some g → g.Full := by
  rintro g rfl
  rw [gustsOf.eq_def] at blown
  split at blown
  · cases blown
  · split at blown
    · obtain ⟨_, made, same⟩ := bind_eq_ok blown
      cases same
      exact Gusts.full_of_words (by decide) made
    · cases blown
    · obtain ⟨_, made, same⟩ := bind_eq_ok blown
      cases same
      exact Gusts.full_of_words (by decide) (Gusts.words_of_seed made)

theorem exists_windAt (full : ∀ g, gusts = some g → g.Full) (wind : Wind Float) (time : Float) :
    ∃ noise, windAt wind gusts time = .ok (wind.withNoise noise) := by
  cases gusts with
  | none => exact ⟨wind.noise, rfl⟩
  | some g =>
      obtain ⟨x, sampled⟩ := Gusts.exists_sample (full g rfl) time
      refine ⟨some x, ?_⟩
      rw [windAt, sampled]
      rfl

def frameAt (a : Asset Float) (wind : Wind Float) (gusts : Option (Gusts Float)) (rate : Choice Float) (k : Nat) :
    Except (Fault Float) (List (Vec3 Float)) := do
  let time ← frameTime (← rate.get 30.0) k
  pose a time (← windAt wind gusts time)

theorem frames_eq_mapM (a : Asset Float) (wind : Wind Float) (gusts : Option (Gusts Float)) (rate : Choice Float)
    (k count : Nat) : frames a wind gusts rate k count = (List.range' k count).mapM (frameAt a wind gusts rate) := by
  induction count generalizing k with
  | zero => rfl
  | succ count ih =>
      rw [frames, ih, List.range'_succ, List.mapM_cons]
      simp only [frameAt, bind_assoc]

/-- Frame `k` of so many in a second: the tree at its moment, in the wind and the gusts of that moment. -/
def Filmed (a : Asset Float) (wind : Wind Float) (gusts : Option (Gusts Float)) (r : Float) (k : Nat)
    (vertices : List (Vec3 Float)) : Prop :=
  ∃ w, windAt wind gusts (Scalar.ofInt k / r) = .ok w ∧ a.Shows (Scalar.ofInt k / r) w vertices

theorem frameTime_of_moving (moving : (r == 0) = false) (k : Nat) : frameTime r k = .ok (Scalar.ofInt k / r) := by
  rw [frameTime, moving]
  rfl

theorem exists_frames (held : a.mesh? = some mesh) (movable : a.Movable mesh) (usable : wind.Usable)
    (blows : a.mode = .static → ¬ wind.Faint) (full : ∀ g, gusts = some g → g.Full) (rated : rate.Stands 30.0 r)
    (moving : (r == 0) = false) (n : Nat) :
    ∃ fs, frames a wind gusts rate 0 n = .ok fs ∧ List.Forall₂ (Filmed a wind gusts r) (List.range n) fs := by
  rw [frames_eq_mapM, ← List.range_eq_range']
  -- The wind changes from frame to frame by its noise only, so it passes and has a direction at every moment.
  refine mapM_relates fun k _ => ?_
  obtain ⟨noise, blown⟩ := exists_windAt full wind (Scalar.ofInt k / r)
  have directed : a.mode = .static → ¬ (wind.withNoise noise).Faint := fun mode faint =>
    blows mode (Wind.faint_withNoise.mp faint)
  obtain ⟨vertices, posed, shown⟩ := exists_pose held movable (usable.withNoise noise) directed (Scalar.ofInt k / r)
  refine ⟨vertices, ?_, _, blown, shown⟩
  rw [frameAt, rated, ok_bind, frameTime_of_moving moving, ok_bind, blown, ok_bind, posed]

theorem frames_of_fault {e : Fault Float} (fails : frameAt a wind gusts rate 0 = .error e) {n : Nat} (positive : 0 < n) :
    frames a wind gusts rate 0 n = .error e := by
  cases n with
  | zero => exact absurd positive (Nat.lt_irrefl 0)
  | succ n => rw [frames_eq_mapM, List.range'_succ, List.mapM_cons, fails, error_bind]

theorem frameAt_of_faint (held : a.mesh? = some mesh) (movable : a.Movable mesh) (usable : wind.Usable)
    (mode : a.mode = .static) (faint : wind.Faint) (full : ∀ g, gusts = some g → g.Full) (rated : rate.Stands 30.0 r)
    (moving : (r == 0) = false) (k : Nat) : frameAt a wind gusts rate k = .error (.windVertical wind.direction) := by
  obtain ⟨noise, blown⟩ := exists_windAt full wind (Scalar.ofInt k / r)
  rw [frameAt, rated, ok_bind, frameTime_of_moving moving, ok_bind, blown, ok_bind,
    pose_of_faint held movable (usable.withNoise noise) mode (Wind.faint_withNoise.mpr faint)]
  rfl

section

variable {chance : Nat → Array UInt32} {seed : Choice Int} {noise : Bool}

theorem gustsOf_of_outside (outside : seed.IsNoSeed) : gustsOf chance true seed = .error .seed := by
  cases seed with
  | usual => cases outside
  | nothing => rfl
  | value s =>
      have refused : (Gusts.ofSeed 0.5 256 s : Except (Fault Float) (Gusts Float)) = .error .seed :=
        Gusts.ofSeed_of_outside outside
      rw [gustsOf, refused]
      rfl

theorem gusts_or_outside (chance : Nat → Array UInt32) (noise : Bool) (seed : Choice Int) :
    (∃ gusts, gustsOf chance noise seed = .ok gusts) ∨ noise = true ∧ seed.IsNoSeed := by
  have counted : lengthOf (α := Float) 256 = .ok 256 := rfl
  cases noise with
  | false => exact .inl ⟨none, rfl⟩
  | true =>
      cases seed with
      | usual =>
          obtain ⟨g, made⟩ := Gusts.exists_ofWords 0.5 counted chance
          refine .inl ⟨some g, ?_⟩
          rw [gustsOf, made]
          rfl
      | nothing => exact .inr ⟨rfl, trivial⟩
      | value s =>
          by_cases outside : s < 0 ∨ 2 ^ 32 ≤ s
          · exact .inr ⟨rfl, outside⟩
          · have inside : 0 ≤ s ∧ s < 2 ^ 32 := by omega
            obtain ⟨g, made⟩ := Gusts.exists_ofSeed 0.5 counted inside
            refine .inl ⟨some g, ?_⟩
            rw [gustsOf, made]
            rfl

end

end Task

end Arbor.Command
