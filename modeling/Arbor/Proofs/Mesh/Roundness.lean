import Arbor.Proofs.Mesh.Blocks
import Arbor.Proofs.Mesh.Globe
import Arbor.Proofs.Space.Volume

/-!
# Roundness

In exact arithmetic the vertices of a ball lie around its center at one distance, those that are one place lie on each
other, and its faces show their outside.
-/

namespace Arbor

namespace Triangle

theorem Joins.corner_eq {ι κ : Type} [DecidableEq κ] {t : Triangle Nat} {items : List ι} {corners : Triangle ι}
    (joins : t.Joins items corners) {name : Nat → κ} (one : ∀ v w, name v = name w → items[v]? = items[w]?)
    (repeated : ¬ (t.map name).toList.Nodup) :
    corners.a = corners.b ∨ corners.b = corners.c ∨ corners.c = corners.a := by
  have corner {v w : Nat} {p q : ι} (here : items[v]? = some p) (there : items[w]? = some q) (same : name v = name w) :
      p = q := by
    rw [one v w same, there] at here
    exact (Option.some.inj here).symm
  rw [nodup_toList_iff] at repeated
  simp only [Triangle.map, sides, List.mem_cons, List.not_mem_nil, or_false, forall_eq_or_imp, forall_eq,
    not_and_or, not_not] at repeated
  rcases repeated with same | same | same
  · exact .inl (corner joins.first joins.second same)
  · exact .inr (.inl (corner joins.second joins.third same))
  · exact .inr (.inr (corner joins.third joins.first same))

end Triangle

namespace Ball

section Grid

variable {α : Type} [Scalar α]

theorem getElem?_directions {segments rings r s : Nat} (row : r ≤ rings) (inside : s ≤ segments) :
    (directions (rings + 1) (segments + 1) : List (Vec3 α))[r * (segments + 1) + s]? =
      some (direction segments rings r s) := by
  have below : r < rings + 1 := by omega
  have within : s < segments + 1 := by omega
  have start : Blocks.before (fun _ => segments + 1) (List.range (rings + 1)) r = r * (segments + 1) := by
    simp [Blocks.before, below.le]
  rw [directions, ← start, Blocks.getElem?_flatMap (fun _ _ => by simp) (List.getElem?_range below) within,
    List.getElem?_map, List.getElem?_range within, Option.map_some, Nat.add_sub_cancel, Nat.add_sub_cancel]

theorem joins_upper {segments rings r s : Nat} (row : r < rings) (inside : s < segments) :
    (upper segments r s).Joins (directions (rings + 1) (segments + 1) : List (Vec3 α))
      ⟨direction segments rings r s, direction segments rings r (s + 1), direction segments rings (r + 1) s⟩ := by
  have below : r * (segments + 1) + s + (segments + 1) = (r + 1) * (segments + 1) + s := by ring
  rw [upper, below, Nat.add_assoc]
  exact ⟨getElem?_directions row.le inside.le, getElem?_directions row.le inside,
    getElem?_directions row inside.le⟩

theorem joins_lower {segments rings r s : Nat} (row : r < rings) (inside : s < segments) :
    (lower segments r s).Joins (directions (rings + 1) (segments + 1) : List (Vec3 α))
      ⟨direction segments rings r (s + 1), direction segments rings (r + 1) (s + 1),
        direction segments rings (r + 1) s⟩ := by
  have below : r * (segments + 1) + s + (segments + 1) = (r + 1) * (segments + 1) + s := by ring
  rw [lower, below, Nat.add_assoc, Nat.add_assoc]
  exact ⟨getElem?_directions row.le inside, getElem?_directions row inside, getElem?_directions row inside.le⟩

end Grid

noncomputable def latitude (rings r : Nat) : ℝ := r * (Real.pi / rings)

noncomputable def longitude (segments s : Nat) : ℝ := s * spread segments

/-- The direction at an angle from the upper pole and at an angle around the axis. -/
noncomputable def spherical (phi theta : ℝ) : Vec3 ℝ :=
  ⟨Real.sin phi * Real.cos theta, Real.cos phi, Real.sin phi * Real.sin theta⟩

theorem mark_eq {n : Nat} (nonzero : n ≠ 0) (total : ℝ) (k : Nat) : mark total n k = k * (total / n) := by
  rw [mark]
  split
  · rename_i first
    rw [first, Nat.cast_zero]
    exact (zero_mul _).symm
  · split
    · rename_i last
      rw [last]
      exact (mul_div_cancel₀ total (Nat.cast_ne_zero.mpr nonzero)).symm
    · exact congrArg₂ (fun a b : ℝ => a * (total / b)) (Int.cast_natCast k) (Int.cast_natCast n)

theorem direction_eq {segments rings : Nat} (wide : segments ≠ 0) (high : rings ≠ 0) (r s : Nat) :
    direction segments rings r s = spherical (latitude rings r) (longitude segments s) := by
  rw [direction, mark_eq wide, mark_eq high, ofInt_two]
  rfl

theorem norm_spherical (phi theta : ℝ) : (spherical phi theta).norm = 1 := by
  refine Vec3.norm_eq_of_dot zero_le_one ?_
  simp only [Vec3.dot, spherical]
  linear_combination Real.sin phi ^ 2 * Real.sin_sq_add_cos_sq theta + Real.sin_sq_add_cos_sq phi

theorem volume_upper (phi psi theta eta : ℝ) :
    Vec3.volume (spherical phi theta) (spherical phi eta) (spherical psi theta) =
      Real.sin phi * (Real.sin (eta - theta) * Real.sin (psi - phi)) := by
  rw [Real.sin_sub, Real.sin_sub]
  simp only [Vec3.volume, Vec3.cross, Vec3.dot, spherical]
  ring

theorem volume_lower (phi psi theta eta : ℝ) :
    Vec3.volume (spherical phi eta) (spherical psi eta) (spherical psi theta) =
      Real.sin psi * (Real.sin (eta - theta) * Real.sin (psi - phi)) := by
  rw [Real.sin_sub, Real.sin_sub]
  simp only [Vec3.volume, Vec3.cross, Vec3.dot, spherical]
  ring

theorem latitude_succ_sub (rings r : Nat) : latitude rings (r + 1) - latitude rings r = Real.pi / rings := by
  rw [latitude, latitude, Nat.cast_add, Nat.cast_one]
  ring

theorem longitude_succ_sub (segments s : Nat) :
    longitude segments (s + 1) - longitude segments s = spread segments := by
  rw [longitude, longitude, Nat.cast_add, Nat.cast_one]
  ring

theorem latitude_pole {rings r : Nat} (nonzero : rings ≠ 0) (pole : r = 0 ∨ r = rings) :
    Real.sin (latitude rings r) = 0 := by
  rcases pole with rfl | rfl
  · rw [latitude, Nat.cast_zero, zero_mul, Real.sin_zero]
  · rw [latitude, mul_div_cancel₀ _ (Nat.cast_ne_zero.mpr nonzero), Real.sin_pi]

theorem sin_latitude_pos {rings r : Nat} (below : 0 < r) (above : r < rings) : 0 < Real.sin (latitude rings r) := by
  have high : (0 : ℝ) < rings := by exact_mod_cast below.trans above
  have part : latitude rings r = r / rings * Real.pi := by
    rw [latitude]
    ring
  rw [part]
  refine Real.sin_pos_of_pos_of_lt_pi (by positivity) ?_
  refine mul_lt_of_lt_one_left Real.pi_pos ?_
  rw [div_lt_one high]
  exact_mod_cast above

theorem sin_step_pos {segments rings : Nat} (three : 3 ≤ segments) (two : 2 ≤ rings) :
    0 < Real.sin (spread segments) * Real.sin (Real.pi / rings) := by
  have high : (2 : ℝ) ≤ rings := by exact_mod_cast two
  have pi := Real.pi_pos
  refine mul_pos (sin_spread_pos three) (Real.sin_pos_of_pos_of_lt_pi (by positivity) ?_)
  rw [div_lt_iff₀ (by linarith)]
  nlinarith

theorem spherical_of_node {segments rings r s q t : Nat} (wide : segments ≠ 0) (high : rings ≠ 0)
    (inside : s ≤ segments) (within : t ≤ segments) (one : node segments rings r s = node segments rings q t) :
    spherical (latitude rings r) (longitude segments s) = spherical (latitude rings q) (longitude segments t) := by
  have around {k : Nat} (turn : k ≤ segments) (phi : ℝ) :
      spherical phi (longitude segments k) = spherical phi (longitude segments (k % segments)) := by
    rcases turn.lt_or_eq with early | rfl
    · rw [Nat.mod_eq_of_lt early]
    · rw [Nat.mod_self, longitude, longitude, mul_spread wide, Nat.cast_zero, zero_mul,
        spherical, spherical, Real.cos_two_pi, Real.sin_two_pi, Real.cos_zero, Real.sin_zero]
  obtain rfl : r = q := by
    have same := congrArg Prod.fst one
    rw [node, node] at same
    split at same <;> split at same <;> exact same
  by_cases pole : r = 0 ∨ r = rings
  · rw [spherical, spherical, latitude_pole high pole]
    simp only [zero_mul]
  · rw [node, node, if_neg pole, if_neg pole] at one
    have turn : s % segments = t % segments := congrArg Prod.snd one
    rw [around inside, around within, turn]

theorem getElem?_directions_weld {segments rings : Nat} (wide : segments ≠ 0) (high : rings ≠ 0) {v w : Nat}
    (one : weld segments rings v = weld segments rings w) :
    (directions (rings + 1) (segments + 1) : List (Vec3 ℝ))[v]? = (directions (rings + 1) (segments + 1))[w]? := by
  have place (u : Nat) : u = u / (segments + 1) * (segments + 1) + u % (segments + 1) := (Nat.div_add_mod' u _).symm
  have turn (u : Nat) : u % (segments + 1) ≤ segments := Nat.le_of_lt_succ (Nat.mod_lt _ (Nat.succ_pos _))
  have row : v / (segments + 1) = w / (segments + 1) := by
    have same := congrArg Prod.fst one
    rw [weld, weld, node, node] at same
    split at same <;> split at same <;> exact same
  by_cases below : w / (segments + 1) ≤ rings
  · rw [place v, place w, getElem?_directions (by omega) (turn v), getElem?_directions below (turn w),
      direction_eq wide high, direction_eq wide high]
    exact congrArg some (spherical_of_node wide high (turn v) (turn w) one)
  · have outside {u : Nat} (far : u / (segments + 1) = w / (segments + 1)) :
        (directions (rings + 1) (segments + 1) : List (Vec3 ℝ))[u]? = none := by
      refine List.getElem?_eq_none ?_
      rw [length_directions, ← Nat.le_div_iff_mul_le (Nat.succ_pos segments), far]
      exact Nat.lt_of_not_le below
    rw [outside row, outside rfl]

theorem exists_of_mem_grid {segments rings : Nat} {t : Triangle Nat} (member : t ∈ grid segments rings) :
    ∃ r < rings, ∃ s < segments, t = upper segments r s ∨ t = lower segments r s := by
  obtain ⟨r, row, member⟩ := List.mem_flatMap.mp member
  obtain ⟨s, inside, member⟩ := List.mem_flatMap.mp member
  exact ⟨r, List.mem_range.mp row, s, List.mem_range.mp inside, List.mem_pair.mp member⟩

theorem volume_pos {segments rings : Nat} (three : 3 ≤ segments) (two : 2 ≤ rings) {t : Triangle Nat}
    (member : t ∈ faces segments rings) : ∃ corners : Triangle (Vec3 ℝ),
      t.Joins (directions (rings + 1) (segments + 1)) corners ∧ 0 < Vec3.volume corners.a corners.b corners.c := by
  rw [faces_eq_filter (by omega), List.mem_filter, decide_eq_true_iff] at member
  obtain ⟨member, proper⟩ := member
  obtain ⟨r, row, s, inside, rfl | rfl⟩ := exists_of_mem_grid member
  · rw [nodup_upper (by omega) row inside] at proper
    refine ⟨_, joins_upper row inside, ?_⟩
    rw [direction_eq (by omega) (by omega), direction_eq (by omega) (by omega), direction_eq (by omega) (by omega),
      volume_upper, latitude_succ_sub, longitude_succ_sub]
    exact mul_pos (sin_latitude_pos (by omega) row) (sin_step_pos three two)
  · rw [nodup_lower (by omega) row inside] at proper
    refine ⟨_, joins_lower row inside, ?_⟩
    rw [direction_eq (by omega) (by omega), direction_eq (by omega) (by omega), direction_eq (by omega) (by omega),
      volume_lower, latitude_succ_sub, longitude_succ_sub]
    exact mul_pos (sin_latitude_pos (by omega) (by omega)) (sin_step_pos three two)

theorem exists_joins {segments rings : Nat} {t : Triangle Nat} (member : t ∈ grid segments rings) :
    ∃ corners : Triangle (Vec3 ℝ), t.Joins (directions (rings + 1) (segments + 1)) corners := by
  obtain ⟨r, row, s, inside, rfl | rfl⟩ := exists_of_mem_grid member
  · exact ⟨_, joins_upper row inside⟩
  · exact ⟨_, joins_lower row inside⟩

theorem norm_of_mem_directions {segments rings : Nat} (wide : segments ≠ 0) (high : rings ≠ 0) :
    ∀ n ∈ (directions (rings + 1) (segments + 1) : List (Vec3 ℝ)), n.norm = 1 := by
  intro n member
  obtain ⟨r, -, member⟩ := List.mem_flatMap.mp member
  obtain ⟨s, -, rfl⟩ := List.mem_map.mp member
  rw [Nat.add_sub_cancel, Nat.add_sub_cancel, direction_eq wide high, norm_spherical]

theorem place_sub (b : Ball ℝ) (n : Vec3 ℝ) : b.place n - b.center = n.scale b.radius :=
  Vec3.add_sub_cancel_left _ _

theorem volumeFrom_place (b : Ball ℝ) (t : Triangle (Vec3 ℝ)) :
    (t.map b.place).volumeFrom b.center = b.radius * b.radius * b.radius * Vec3.volume t.a t.b t.c := by
  rw [Triangle.volumeFrom, Triangle.map, place_sub, place_sub, place_sub, Vec3.volume_scale]

/-- Vertices around the center of a ball, and faces of which the outside is seen from outside. -/
structure Encloses (b : Ball ℝ) (segments rings : Nat) (c : Chunk ℝ) : Prop where
  welded : ∀ v w, weld segments rings v = weld segments rings w →
    c.positions[v]? = c.positions[w]? ∧ c.normals[v]? = c.normals[w]?
  around : List.Forall₂
    (fun p n => Vec3.distance p b.center = |b.radius| ∧ n.norm = 1 ∧ p = b.center + n.scale b.radius)
    c.positions c.normals
  outward : 0 < b.radius → ∀ t ∈ faces segments rings,
    ∃ corners, t.Joins c.positions corners ∧ 0 < corners.volumeFrom b.center
  flat : b.radius ≠ 0 → ∀ t ∈ grid segments rings,
    ∃ corners, t.Joins c.positions corners ∧ (t ∉ faces segments rings ↔ corners.facing = 0)

theorem encloses_of_chunk {segments rings : Nat} (three : 3 ≤ segments) (two : 2 ≤ rings) {b : Ball ℝ} {c : Chunk ℝ}
    (drawn : b.chunk segments rings = .ok c) : b.Encloses segments rings c := by
  have positions : c.positions = (directions (rings + 1) (segments + 1)).map b.place := by rw [eq_of_chunk drawn]; rfl
  have normals : c.normals = directions (rings + 1) (segments + 1) := by
    rw [eq_of_chunk drawn]
    exact List.map_id' _
  have wide : segments ≠ 0 := by omega
  have high : rings ≠ 0 := by omega
  have welded (v w : Nat) (one : weld segments rings v = weld segments rings w) :
      c.positions[v]? = c.positions[w]? := by
    rw [positions, List.getElem?_map, List.getElem?_map, getElem?_directions_weld wide high one]
  refine ⟨?_, ?_, ?_, ?_⟩
  · intro v w one
    refine ⟨welded v w one, ?_⟩
    rw [normals, getElem?_directions_weld wide high one]
  · rw [positions, normals, List.forall₂_map_left_iff, List.forall₂_same]
    intro n member
    have unit := norm_of_mem_directions wide high n member
    refine ⟨?_, unit, rfl⟩
    rw [Vec3.distance, place_sub, Vec3.norm_scale, unit, mul_one]
  · intro positive t member
    obtain ⟨corners, joins, outside⟩ := volume_pos three two member
    refine ⟨corners.map b.place, positions ▸ joins.map b.place, ?_⟩
    rw [volumeFrom_place]
    positivity
  · intro filled t member
    obtain ⟨corners, joins⟩ := exists_joins member
    refine ⟨corners.map b.place, positions ▸ joins.map b.place, ?_, ?_⟩
    · intro left
      rw [faces_eq_filter (by omega), List.mem_filter, decide_eq_true_iff, not_and] at left
      have lies : t.Joins c.positions (corners.map b.place) := positions ▸ joins.map b.place
      exact Triangle.facing_of_eq (lies.corner_eq welded (left member))
    · intro flat kept
      obtain ⟨others, same, outside⟩ := volume_pos three two kept
      obtain rfl := joins.unique same
      have volume := volumeFrom_place b corners
      rw [Triangle.volumeFrom_eq, flat, Vec3.dot_comm, Vec3.zero_dot] at volume
      have apart := mul_ne_zero (mul_ne_zero (mul_ne_zero filled filled) filled) outside.ne'
      exact apart volume.symm

/-- A ball is closed when its last column is one with its first and each pole is one place: two triangles a cell then
join three different places, less those at the poles, which would join a place with itself. In exact arithmetic each
place has one position, all of them lie around the center, and the triangles show their outside. -/
theorem closed_sphere {α : Type} [Scalar α] {segments rings : Nat} (three : 3 ≤ segments) (two : 2 ≤ rings) :
    (faces segments rings).length = 2 * segments * (rings - 1) ∧
      Closed ((faces segments rings).map (Triangle.map (weld segments rings))) ∧
      faces segments rings =
        (grid segments rings).filter (fun t => (t.map (weld segments rings)).toList.Nodup) ∧
      (∀ b : Ball α, ((rings + 1) * (segments + 1) : Nat) ≤ roomLimit →
        ∃ c, b.chunk segments rings = .ok c ∧ c.Shaped ((rings + 1) * (segments + 1)) (faces segments rings) ∧
          c.faces.toTriangles.map (Triangle.map UInt32.toNat) = faces segments rings) ∧
      ∀ (b : Ball ℝ) c, b.chunk segments rings = .ok c →
        c.faces = .triangles ((faces segments rings).map (Triangle.map UInt32.ofNat)) ∧
          b.Encloses segments rings c := by
  refine ⟨length_faces segments rings, closed_welded three two, faces_eq_filter (by omega) rings, ?_, ?_⟩
  · intro b room
    obtain ⟨c, drawn, shaped⟩ := chunk_of_grid b (by omega) two room
    have limit : roomLimit = (2 ^ 32 : Nat) := by decide
    have wide : (rings + 1) * (segments + 1) ≤ 2 ^ 32 := Int.ofNat_le.mp (limit ▸ room)
    refine ⟨c, drawn, shaped, ?_⟩
    rw [shaped.faces, Faces.toTriangles, List.map_map]
    refine (List.map_congr_left fun t member => ?_).trans (List.map_id _)
    exact Triangle.toNat_ofNat (shaped.within t member) wide
  · intro b c drawn
    have filled : faces segments rings ≠ [] := by
      rw [← List.length_pos_iff, length_faces]
      exact Nat.mul_pos (by omega) (by omega)
    refine ⟨?_, encloses_of_chunk three two drawn⟩
    rw [eq_of_chunk drawn]
    exact Faces.ofPrimitive_of_ne_nil filled

theorem closed_sphere_three : Closed ((faces 3 2).map (Triangle.map (weld 3 2))) ∧
    ∃ c, (⟨⟨1, 2, 3⟩, 2⟩ : Ball ℝ).chunk (3 : Nat) (2 : Nat) = .ok c ∧ Ball.Encloses ⟨⟨1, 2, 3⟩, 2⟩ 3 2 c := by
  obtain ⟨-, closed, -, lies, outside⟩ := closed_sphere (α := ℝ) (Nat.le_refl 3) (Nat.le_refl 2)
  obtain ⟨c, drawn, -, -⟩ := lies ⟨⟨1, 2, 3⟩, 2⟩ (by decide)
  exact ⟨closed, c, drawn, (outside _ c drawn).2⟩

end Ball

end Arbor
