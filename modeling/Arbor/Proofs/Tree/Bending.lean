import Arbor.Proofs.Skeleton.Rigidity
import Arbor.Proofs.Tree.Building
import Arbor.Proofs.Tree.Swaying
import Arbor.Proofs.Turtle.Poses
import Arbor.Proofs.Wind.Swinging

namespace Arbor

namespace Gait

variable {g : Gait ℝ} {word : Text}

theorem topRadius_of_mem_events {s : Segment ℝ} (member : .segment s ∈ g.events word) :
    s.topRadius = s.baseRadius * g.reduction := by
  obtain ⟨k, rfl⟩ := g.exists_turtle_of_mem_events member
  rfl

theorem baseRadius_le_of_parent (start : 0 < g.startRadius) (narrowing : 0 < g.reduction ∧ g.reduction ≤ 1)
    {k j : Nat} {s t : Segment ℝ} (placed : (segments (g.events word))[k]? = some s) (grown : s.parent = some j)
    (before : (segments (g.events word))[j]? = some t) : s.baseRadius ≤ t.baseRadius := by
  have stands := g.standsOn_of_mem_events (mem_segments.mp (List.mem_of_getElem? placed))
  rw [grown] at stands
  obtain ⟨below, there, -, -, thick⟩ := stands
  rw [before] at there
  cases there
  have member := mem_segments.mp (List.mem_of_getElem? before)
  have positive := (thick_of_mem_events start narrowing.1 member).1
  calc
    s.baseRadius = t.baseRadius * g.reduction := thick.trans (topRadius_of_mem_events member)
    _ ≤ t.baseRadius := mul_le_of_le_one_right positive.le narrowing.2

end Gait

namespace Skeleton

variable {s : Skeleton ℝ} {g : Gait ℝ} {root : Vec3 ℝ} {word : Text}

theorem exists_segment_of_mirrors (mirrors : Rig.Mirrors root (segments (g.events word)) s.bones) {i : Nat}
    (above : 1 ≤ i) {b : Bone ℝ} (found : s.bones[i]? = some b) :
    ∃ k segment, i = k + 1 ∧ (segments (g.events word))[k]? = some segment ∧ b.parent = boneOf segment.parent ∧
      b.radius = segment.baseRadius := by
  rcases Rig.bare_of_mirrors mirrors found with ⟨rfl, -, -⟩ | ⟨k, segment, rfl, placed, -, parent⟩
  · omega
  have grown := mirrors.grown k segment placed
  rw [found, Option.map_some, Option.some.injEq] at grown
  exact ⟨k, segment, rfl, placed, parent, congrArg Bone.radius grown⟩

theorem radius_pos_of_mirrors (mirrors : Rig.Mirrors root (segments (g.events word)) s.bones)
    (start : 0 < g.startRadius) (reduction : 0 < g.reduction) {i : Nat} (above : 1 ≤ i) {b : Bone ℝ}
    (found : s.bones[i]? = some b) : 0 < b.radius := by
  obtain ⟨k, segment, -, placed, -, radius⟩ := exists_segment_of_mirrors mirrors above found
  rw [radius]
  exact (Gait.thick_of_mem_events start reduction (mem_segments.mp (List.mem_of_getElem? placed))).1

theorem radius_le_of_parent (mirrors : Rig.Mirrors root (segments (g.events word)) s.bones)
    (start : 0 < g.startRadius) (narrowing : 0 < g.reduction ∧ g.reduction ≤ 1) {i p : Nat} (above : 1 ≤ p)
    (grown : s.parent? i = some p) {b c : Bone ℝ} (found : s.bones[i]? = some b) (there : s.bones[p]? = some c) :
    b.radius ≤ c.radius := by
  have before := lt_of_parent? (inPlace_of_mirrors mirrors) grown
  obtain ⟨k, segment, rfl, placed, parent, radius⟩ := exists_segment_of_mirrors mirrors (by omega) found
  obtain ⟨j, below, rfl, earlier, -, thick⟩ := exists_segment_of_mirrors mirrors above there
  have carried := (not_isRoot_of_parent? found grown).2
  have named : segment.parent = some j := boneOf_eq_succ.mp (by omega)
  rw [radius, thick]
  exact Gait.baseRadius_le_of_parent start narrowing placed named earlier

/-- Along a line of bones the radii never grow. -/
theorem radius_le_of_lineage (mirrors : Rig.Mirrors root (segments (g.events word)) s.bones)
    (start : 0 < g.startRadius) (narrowing : 0 < g.reduction ∧ g.reduction ≤ 1) {i j : Nat} (above : 1 ≤ j)
    (line : j ∈ s.lineage i) {b c : Bone ℝ} (found : s.bones[i]? = some b) (there : s.bones[j]? = some c) :
    b.radius ≤ c.radius := by
  have inPlace := inPlace_of_mirrors mirrors
  induction i using ascend inPlace generalizing b with
  | root i parent =>
      rw [lineage_root parent, List.mem_singleton] at line
      subst line
      rw [found] at there
      cases there
      exact le_rfl
  | grown i p parent ih =>
      rcases (mem_lineage_grown inPlace parent).mp line with on | rfl
      · have before := le_of_mem_lineage inPlace on
        have inside : p < s.bones.size :=
          (lt_of_parent? inPlace parent).trans (Array.getElem?_eq_some_iff.mp found).1
        have carrier := Array.getElem?_eq_getElem inside
        exact (radius_le_of_parent mirrors start narrowing (above.trans before) parent found carrier).trans
          (ih on carrier)
      · rw [found] at there
        cases there
        exact le_rfl

end Skeleton

namespace Asset

/-- In exact arithmetic every bone of a skinned tree swings on an ellipse of its own, which has the size of its bend and
a direction that only the wind has a say in. The bends never shrink along a branch, and a phase is a later time. -/
theorem sway_follows_branching (p : TreeParams ℝ) (word : Text) (a : Asset ℝ) (built : build p word = .ok a)
    (skins : a.mode = .skinned) (wind : Wind ℝ) (valid : wind.validate = .ok ()) (time : ℝ)
    (settings : SwaySettings ℝ) (phase : ℝ) :
    ∃ s v rows, a.skeleton? = some s ∧ wind.direction = v.toList ∧ a.sway time wind settings phase = .ok rows ∧
      rows.length = s.size ∧
      (∀ (i : Nat) b, 1 ≤ i → s.bones[i]? = some b →
        ∃ row, rows[i]? = some row ∧ settings.bone.Swings time phase wind v i b.radius row) ∧
      (∀ (i j : Nat) b c, 1 ≤ j → j ∈ s.lineage i → s.bones[i]? = some b → s.bones[j]? = some c →
        |settings.bone.bend wind c.radius| ≤ |settings.bone.bend wind b.radius|) ∧
      a.sway (time + phase) wind settings 0 = .ok rows := by
  obtain ⟨place, mesh, s, checked, rigged, held, bones⟩ := rig_of_build built skins
  have mirrors := Rig.mirrors_of_build ((p.gait place).numbered_events word) rigged
  obtain ⟨-, -, -, positive, narrowing, -⟩ := TreeParams.checked_eq_ok.mp checked
  have usable := Wind.usable_iff.mp valid
  obtain ⟨v, directed⟩ := Wind.exists_checked usable
  obtain ⟨rows, turned, length⟩ := settings.bone.length_turns s.radii time phase usable
  have inPlace := Skeleton.inPlace_of_mirrors mirrors
  have thick {i : Nat} {b : Bone ℝ} (above : 1 ≤ i) (found : s.bones[i]? = some b) : 0 < b.radius :=
    Skeleton.radius_pos_of_mirrors mirrors positive.1 narrowing.1 above found
  refine ⟨s, v, rows, bones, (Wind.checked_eq_ok.mp directed).1, ?_, ?_, ?_, ?_, ?_⟩
  · rw [sway_of_bending held usable skins bones, turned]
  · rw [length, Skeleton.radii, List.length_map]
    rfl
  · intro i b above found
    have radius : s.radii[i]? = some b.radius := by
      rw [Skeleton.radii, List.getElem?_map, Skeleton.toList, Array.getElem?_toList, found]
      rfl
    exact BoneSway.swings_of_turns directed turned radius above (thick above found)
  · intro i j b c above line found there
    have below := above.trans (Skeleton.le_of_mem_lineage inPlace line)
    exact BoneSway.abs_bend_le (thick below found)
      (Skeleton.radius_le_of_lineage mirrors positive.1 narrowing above line found there)
  · rw [sway_of_bending held usable skins bones, BoneSway.turns_later, turned]

theorem sway_follows_branching_sapling :
    ∃ a s v rows, build TreeParams.sapling ['f', 'f'] = .ok a ∧ a.mode = .skinned ∧
      (Wind.standard : Wind ℝ).validate = .ok () ∧ a.skeleton? = some s ∧
      a.sway 1 Wind.standard SwaySettings.standard 2 = .ok rows ∧
      (∃ b c row, s.bones[2]? = some b ∧ s.bones[1]? = some c ∧ rows[2]? = some row ∧
        BoneSway.Swings BoneSway.standard 1 2 Wind.standard v 2 b.radius row ∧
        |BoneSway.bend BoneSway.standard Wind.standard c.radius| ≤
          |BoneSway.bend BoneSway.standard Wind.standard b.radius|) ∧
      a.sway (1 + 2) Wind.standard SwaySettings.standard 0 = .ok rows := by
  have fits : TreeParams.sapling.Fits ['f', 'f'] :=
    ⟨fun _ => by decide, fun _ => by decide, fun _ => by decide⟩
  obtain ⟨a, made⟩ := exists_of_fits positiveApart_real TreeParams.usable_sapling fits
  have skins : a.mode = .skinned := mode_of_build made
  have valid : (Wind.standard : Wind ℝ).validate = .ok () :=
    Wind.usable_iff.mpr ⟨fun _ _ => rfl, 1, 0, 0, rfl, fun calm => one_ne_zero (of_decide_eq_true calm.1)⟩
  obtain ⟨s, v, rows, bones, -, swayed, -, swings, bends, later⟩ :=
    sway_follows_branching _ _ a made skins _ valid 1 SwaySettings.standard 2
  obtain ⟨place, mesh, same, checked, rigged, -, carried⟩ := rig_of_build made skins
  rw [bones, Option.some.injEq] at carried
  subst carried
  have mirrors := Rig.mirrors_of_build ((TreeParams.sapling.gait place).numbered_events ['f', 'f']) rigged
  have size : s.bones.size = 3 := mirrors.size
  have inside : 2 < s.bones.size := by omega
  have upper := Array.getElem?_eq_getElem inside
  have lower := Array.getElem?_eq_getElem (Nat.lt_of_succ_lt inside)
  obtain ⟨row, here, swing⟩ := swings 2 _ (by omega) upper
  have line : 1 ∈ s.lineage 2 := Skeleton.mem_lineage_of_stem mirrors (.single ⟨1, _, rfl, rfl, rfl⟩)
  exact ⟨a, s, v, rows, made, skins, valid, bones, swayed, ⟨_, _, row, upper, lower, here, swing,
    bends 2 1 _ _ le_rfl line upper lower⟩, later⟩

end Asset

end Arbor
