import Arbor.Proofs.Mesh.Tapering
import Arbor.Proofs.Skeleton.Rigidity
import Arbor.Proofs.Turtle.Orientation

namespace Arbor

theorem Vec3.scale_inv_norm {v : Vec3 ℝ} {k : ℝ} (forward : 0 < k) (long : v.norm = 1) :
    (v.scale k).scale (v.scale k).norm⁻¹ = v := by
  have whole : k⁻¹ * k = 1 := inv_mul_cancel₀ forward.ne'
  rw [norm_scale, long, abs_of_pos forward, mul_one]
  ext
  · exact (mul_assoc _ _ _).symm.trans (by rw [whole, one_mul])
  · exact (mul_assoc _ _ _).symm.trans (by rw [whole, one_mul])
  · exact (mul_assoc _ _ _).symm.trans (by rw [whole, one_mul])

theorem Mat3.apply_neg (m : Mat3 ℝ) (v : Vec3 ℝ) : m.apply (-v) = -m.apply v := by
  ext <;> simp only [apply, Vec3.dot, Vec3.neg_eq] <;> ring

/-- Geometry in `n` columns around a segment, with every normal of length one. -/
structure Segment.Spanned (s : Segment ℝ) (n : Nat) (c : Chunk ℝ) : Prop where
  bottom : ∀ i < n, ∀ v ∈ [i, 2 * n + i], ∃ p, c.positions[v]? = some p ∧
    Vec3.distance p s.base = s.baseRadius ∧ (p - s.base).dot s.direction = 0
  top : ∀ i < n, ∀ v ∈ [n + i, 3 * n + 1 + i], ∃ p, c.positions[v]? = some p ∧
    Vec3.distance p s.top = s.topRadius ∧ (p - s.top).dot s.direction = 0
  centers : c.positions[3 * n]? = some s.base ∧ c.positions[4 * n + 1]? = some s.top
  unit : ∀ v ∈ c.normals, v.norm = 1
  side : ∀ i < n, ∃ p q v, c.positions[i]? = some p ∧ c.positions[n + i]? = some q ∧
    c.normals[i]? = some v ∧ c.normals[n + i]? = some v ∧
    v.dot (q - p) = 0 ∧ 0 < v.dot (p - s.base) ∧ 0 < v.dot (q - s.top)
  caps : (∀ v, 2 * n ≤ v → v ≤ 3 * n → c.normals[v]? = some (-s.direction.scale s.direction.norm⁻¹)) ∧
    ∀ v, 3 * n + 1 ≤ v → v ≤ 4 * n + 1 → c.normals[v]? = some (s.direction.scale s.direction.norm⁻¹)
  outward : ∀ t ∈ Frustum.faces n, t.Outward c.positions c.normals

namespace Frustum

variable {f : Frustum ℝ}

theorem place_sub (f : Frustum ℝ) (p q : Vec3 ℝ) : f.place p - f.place q = f.orientation.apply (p - q) := by
  ext <;> simp only [place, Mat3.apply, Vec3.dot, Vec3.add_eq, Vec3.sub_eq] <;> ring

theorem place_zero (f : Frustum ℝ) : f.place ⟨0, 0, 0⟩ = f.base := by
  ext <;> simp only [place, Mat3.apply, Vec3.dot, Vec3.add_eq] <;> ring

theorem facing_place (rotation : f.orientation.IsRotation) (t : Triangle (Vec3 ℝ)) :
    (t.map f.place).facing = f.orientation.apply t.facing := by
  rw [Triangle.facing, Triangle.map, place_sub, place_sub, Mat3.cross_apply rotation, Triangle.facing]

theorem outward_place (rotation : f.orientation.IsRotation) {t : Triangle Nat} {positions normals : List (Vec3 ℝ)}
    (outward : t.Outward positions normals) :
    t.Outward (positions.map f.place) (normals.map f.orientation.apply) := by
  obtain ⟨corners, ways, joins, points, positive⟩ := outward
  refine ⟨_, _, joins.map f.place, points.map f.orientation.apply, ?_⟩
  intro v member
  obtain ⟨w, inner, rfl⟩ : ∃ w ∈ ways.toList, f.orientation.apply w = v := List.mem_map.mp member
  rw [facing_place rotation, Mat3.dot_apply_apply rotation]
  exact positive w inner

theorem rim_around (rotation : f.orientation.IsRotation) {radius : ℝ} (thick : 0 < radius) (height angle : ℝ) :
    Vec3.distance (f.place (rim radius height angle)) (f.place ⟨0, height, 0⟩) = radius ∧
      ∀ k, (f.place (rim radius height angle) - f.place ⟨0, height, 0⟩).dot
        (f.orientation.apply (Vec3.up.scale k)) = 0 := by
  have unit := Real.sin_sq_add_cos_sq angle
  constructor
  · rw [Vec3.distance, place_sub, Mat3.norm_apply rotation]
    refine Vec3.norm_eq_of_dot thick.le ?_
    simp only [Vec3.dot, Vec3.sub_eq, rim]
    linear_combination radius * radius * unit
  · intro k
    rw [place_sub, Mat3.dot_apply_apply rotation]
    simp only [Vec3.dot, Vec3.sub_eq, Vec3.scale, Vec3.up, rim]
    ring

theorem shaped_of_chunk {α : Type} [Scalar α] {f : Frustum α} {n : Nat} {c : Chunk α} (drawn : f.chunk n = .ok c)
    (three : 3 ≤ n) (tall : (f.height == 0) = false) :
    c.Shaped (4 * n + 2) (faces n) ∧ c.normals.length = c.vertexCount := by
  refine ⟨⟨?_, ?_, within_faces (by omega)⟩, (conforms_chunk drawn).normals⟩
  · rw [eq_of_chunk drawn tall]
    simp [Chunk.vertexCount, localPositions, ring]
    omega
  · rw [eq_of_chunk drawn tall]
    exact Faces.ofPrimitive_of_ne_nil (faces_ne_nil (by omega))

theorem lean_across (rotation : f.orientation.IsRotation) (thick : 0 < f.baseRadius ∧ 0 < f.topRadius)
    (tall : 0 < f.height) (angle : ℝ) :
    let way := f.orientation.apply (lean ((f.baseRadius - f.topRadius) / f.height) angle)
    way.dot (f.place (rim f.topRadius f.height angle) - f.place (rim f.baseRadius 0 angle)) = 0 ∧
      0 < way.dot (f.place (rim f.baseRadius 0 angle) - f.place ⟨0, 0, 0⟩) ∧
      0 < way.dot (f.place (rim f.topRadius f.height angle) - f.place ⟨0, f.height, 0⟩) := by
  have unit := Real.sin_sq_add_cos_sq angle
  have slope : (f.baseRadius - f.topRadius) / f.height * f.height = f.baseRadius - f.topRadius :=
    div_mul_cancel₀ _ tall.ne'
  generalize (f.baseRadius - f.topRadius) / f.height = k at slope ⊢
  simp only [place_sub, Mat3.dot_apply_apply rotation]
  refine ⟨?_, ?_, ?_⟩
  · have level : (rim f.topRadius f.height angle - rim f.baseRadius 0 angle).dot (spoke k angle) = 0 := by
      simp only [Vec3.dot, Vec3.sub_eq, rim, spoke]
      linear_combination (f.topRadius - f.baseRadius) * unit + slope
    rw [Vec3.dot_comm, dot_lean, level, mul_zero]
  · rw [Vec3.dot_comm]
    refine dot_lean_pos (thick.1.trans_eq ?_)
    simp only [Vec3.dot, Vec3.sub_eq, rim, spoke]
    linear_combination -f.baseRadius * unit
  · rw [Vec3.dot_comm]
    refine dot_lean_pos (thick.2.trans_eq ?_)
    simp only [Vec3.dot, Vec3.sub_eq, rim, spoke]
    linear_combination -f.topRadius * unit

theorem norm_of_mem_localNormals {n : Nat} {slope : ℝ} : ∀ v ∈ localNormals n slope, v.norm = 1 := by
  have down : (⟨0, -1, 0⟩ : Vec3 ℝ).norm = 1 := Vec3.norm_eq_of_dot zero_le_one (by simp [Vec3.dot])
  have up : (⟨0, 1, 0⟩ : Vec3 ℝ).norm = 1 := Vec3.norm_eq_of_dot zero_le_one (by simp [Vec3.dot])
  have side : ∀ v ∈ sideNormals n slope, v.norm = 1 := by
    intro v member
    obtain ⟨i, inside, rfl⟩ := List.mem_iff_getElem.mp member
    have counted : i < n := by simpa [sideNormals] using inside
    have found := getElem?_sideNormals counted slope
    rw [List.getElem?_eq_getElem inside] at found
    rw [Option.some.inj found, norm_lean]
  intro v member
  rw [localNormals, List.mem_append, List.mem_append, List.mem_append] at member
  rcases member with ((low | high) | bottom) | top
  · exact side v low
  · exact side v high
  · rw [List.eq_of_mem_replicate bottom, down]
  · rw [List.eq_of_mem_replicate top, up]

end Frustum

namespace Segment

open Frustum

structure Sound (s : Segment ℝ) : Prop where
  rotation : s.orientation.IsRotation
  thick : 0 < s.baseRadius ∧ 0 < s.topRadius
  tall : 0 < s.height
  top : s.top = s.base + s.orientation.apply (Vec3.up.scale s.height)

theorem sound_of_mem_events {g : Gait ℝ} (start : 0 < g.startRadius) (reduction : 0 < g.reduction)
    (forward : 0 < g.length) {word : Text} {s : Segment ℝ} (member : .segment s ∈ g.events word) : s.Sound := by
  have thick := Gait.thick_of_mem_events start reduction member
  obtain ⟨k, rfl⟩ := g.exists_turtle_of_mem_events member
  exact ⟨g.framed_walk (word.take k) _ List.mem_cons_self, thick, forward, rfl⟩

namespace Sound

variable {s : Segment ℝ}

theorem direction_eq (sound : s.Sound) : s.direction = s.orientation.apply (Vec3.up.scale s.height) := by
  rw [Segment.direction, sound.top, Vec3.add_sub_cancel_left]

theorem place_tip (sound : s.Sound) : s.frustum.place ⟨0, s.height, 0⟩ = s.top := by
  have up : (⟨0, s.height, 0⟩ : Vec3 ℝ) = Vec3.up.scale s.height := by
    ext <;> simp [Vec3.up, Vec3.scale]
  rw [sound.top, up]
  ext <;> simp only [place, frustum, Vec3.add_eq] <;> ring

theorem unit_direction (sound : s.Sound) : s.direction.scale s.direction.norm⁻¹ = s.orientation.apply Vec3.up := by
  have long : (s.orientation.apply Vec3.up).norm = 1 := by
    rw [Mat3.norm_apply sound.rotation]
    exact Vec3.norm_eq_of_dot zero_le_one (by simp [Vec3.dot, Vec3.up])
  rw [sound.direction_eq, Mat3.apply_scale, Vec3.scale_inv_norm sound.tall long]

end Sound

theorem spanned_of_chunk {s : Segment ℝ} (sound : s.Sound) {n : Nat} (three : 3 ≤ n) {c : Chunk ℝ}
    (drawn : s.frustum.chunk n = .ok c) : s.Spanned n c := by
  have turned : s.frustum.orientation.IsRotation := sound.rotation
  have thick : 0 < s.frustum.baseRadius ∧ 0 < s.frustum.topRadius := sound.thick
  have tall : 0 < s.frustum.height := sound.tall
  have made := eq_of_chunk drawn (positiveApart_real _ tall)
  generalize slope : (s.frustum.baseRadius - s.frustum.topRadius) / s.frustum.height = k at made
  have positions : c.positions = (s.frustum.localPositions n).map s.frustum.place := by rw [made]; rfl
  have normals : c.normals = (localNormals n k).map s.frustum.orientation.apply := by rw [made]; rfl
  have base : s.frustum.place ⟨0, 0, 0⟩ = s.base := s.frustum.place_zero
  have tip := sound.place_tip
  have direction := sound.direction_eq
  have placed {v : Nat} {p : Vec3 ℝ} (found : (s.frustum.localPositions n)[v]? = some p) :
      c.positions[v]? = some (s.frustum.place p) := by
    rw [positions, List.getElem?_map, found, Option.map_some]
  have pointed {v : Nat} {w : Vec3 ℝ} (found : (localNormals n k)[v]? = some w) :
      c.normals[v]? = some (s.orientation.apply w) := by
    rw [normals, List.getElem?_map, found, Option.map_some]
    rfl
  have axis := sound.unit_direction
  obtain ⟨lowest, highest⟩ := s.frustum.getElem?_centers n
  obtain ⟨down, above⟩ := getElem?_capNormals n k
  refine ⟨?_, ?_, ⟨?_, ?_⟩, ?_, ?_, ⟨?_, ?_⟩, ?_⟩
  · intro i inside v member
    obtain ⟨⟨bottom, -⟩, -⟩ := s.frustum.getElem?_corner inside k
    have around := rim_around turned thick.1 0 (column n i)
    rw [base] at around
    rw [direction]
    rcases List.mem_pair.mp member with rfl | rfl
    · exact ⟨_, placed bottom, around.1, around.2 _⟩
    · exact ⟨_, placed ((s.frustum.getElem?_caps inside).1.trans bottom), around.1, around.2 _⟩
  · intro i inside v member
    obtain ⟨⟨-, rise⟩, -⟩ := s.frustum.getElem?_corner inside k
    have around := rim_around turned thick.2 s.height (column n i)
    rw [tip] at around
    rw [direction]
    rcases List.mem_pair.mp member with rfl | rfl
    · exact ⟨_, placed rise, around.1, around.2 _⟩
    · exact ⟨_, placed ((s.frustum.getElem?_caps inside).2.trans rise), around.1, around.2 _⟩
  · rw [placed lowest, base]
  · exact (placed highest).trans (congrArg some tip)
  · intro v member
    rw [normals] at member
    obtain ⟨w, inner, rfl⟩ := List.mem_map.mp member
    rw [Mat3.norm_apply turned, norm_of_mem_localNormals w inner]
  · intro i inside
    obtain ⟨⟨bottom, rise⟩, low, high⟩ := s.frustum.getElem?_corner inside k
    have across := lean_across turned thick tall (column n i)
    rw [slope, base] at across
    exact ⟨_, _, _, placed bottom, placed rise, pointed low, pointed high, across.1, across.2.1, tip ▸ across.2.2⟩
  · intro v first last
    rw [axis, ← Mat3.apply_neg, pointed (down v first last)]
    simp [Vec3.neg_eq, Vec3.up]
  · intro v first last
    rw [axis, pointed (above v first last)]
    rfl
  · intro t member
    rw [positions, normals, ← slope]
    exact outward_place turned (outward_of_mem_faces three thick tall member)

/-- In exact arithmetic the geometry of each segment of a tree spans the segment: its rings lie around the two ends of
the segment, as wide as the segment is there, its normals point away from the axis and stand on the sides, and each face
is seen from where its normals point. There is such geometry for every count of columns that there is room for. -/
theorem segment_spanned {p : TreeParams ℝ} {place : Vec3 ℝ} (usable : p.checked = .ok place) {word : Text}
    {s : Segment ℝ} (member : .segment s ∈ (p.gait place).events word) :
    (∀ c, p.assembler.segmentChunk s = .ok c →
      c.Shaped (4 * p.radialSegments.toNat + 2) (faces p.radialSegments.toNat) ∧
        c.normals.length = c.vertexCount ∧ s.Spanned p.radialSegments.toNat c) ∧
      (p.radialSegments < roomLimit → ∃ c, p.assembler.segmentChunk s = .ok c) := by
  obtain ⟨-, finite, -, positive, narrowing, rings⟩ := TreeParams.checked_eq_ok.mp usable
  have sound := sound_of_mem_events (g := p.gait place) positive.1 narrowing.1 positive.2.1 member
  obtain ⟨n, counted⟩ := Int.eq_ofNat_of_zero_le (by omega : 0 ≤ p.radialSegments)
  have three : 3 ≤ n := by omega
  have tall := positiveApart_real _ sound.tall
  rw [counted, Int.toNat_natCast]
  constructor
  · intro c made
    obtain ⟨plain, drawn, same⟩ := Outcome.bind_eq_ok made
    cases same
    have drawn : s.frustum.chunk n = .ok plain := counted ▸ drawn
    have spanned := spanned_of_chunk sound three drawn
    obtain ⟨whole, length⟩ := shaped_of_chunk drawn three tall
    exact ⟨⟨whole.vertices, whole.faces, whole.within⟩, length, spanned.bottom, spanned.top, spanned.centers,
      spanned.unit, spanned.side, spanned.caps, spanned.outward⟩
  · intro room
    obtain ⟨c, drawn, -⟩ := chunk_of_room (f := s.frustum) three room tall
    refine ⟨Assembler.measured c s.baseRadius, ?_⟩
    rw [Assembler.segmentChunk, TreeParams.assembler, counted, drawn, Outcome.ok_bind]
    rfl

theorem segment_spanned_bough :
    ∃ s c, .segment s ∈ ((TreeParams.standard : TreeParams ℝ).gait 0).events ['+', '[', '<', 'f'] ∧
      (TreeParams.standard : TreeParams ℝ).assembler.segmentChunk s = .ok c ∧ s.Spanned 8 c := by
  have usable : (TreeParams.standard : TreeParams ℝ).checked = .ok 0 :=
    TreeParams.checked_eq_ok.mpr ⟨rfl, TreeParams.usable_standard⟩
  have member : .segment ((TreeParams.standard.gait 0).segment
      ((TreeParams.standard.gait 0).walk ['+', '[', '<']).turtle 0) ∈
        ((TreeParams.standard : TreeParams ℝ).gait 0).events ['+', '[', '<', 'f'] := List.mem_cons_self
  obtain ⟨spanned, exists_chunk⟩ := segment_spanned usable member
  obtain ⟨c, made⟩ := exists_chunk (by decide)
  exact ⟨_, c, member, made, (spanned c made).2.2⟩

end Segment

end Arbor
