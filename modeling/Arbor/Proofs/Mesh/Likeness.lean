import Arbor.Proofs.Mesh.Assembly
import Arbor.Proofs.Turtle.Likeness

namespace Arbor

theorem Table.map_put {κ ν μ : Type} [DecidableEq κ] (f : κ → ν → μ) (key : κ) (value : ν) (table : Table κ ν) :
    (put key value table).map (fun entry => (entry.1, f entry.1 entry.2)) =
      put key (f key value) (table.map fun entry => (entry.1, f entry.1 entry.2)) := by
  induction table with
  | nil => rfl
  | cons entry table ih =>
      obtain ⟨k, v⟩ := entry
      by_cases same : k = key
      · subst same
        simp [put]
      · simp [put, same, ih]

namespace Likeness

section

variable {α : Type} (l : Likeness α)

/-- What becomes of a number that is held under a name for a vertex. -/
def measure (name : Text) (x : α) : α :=
  if name = "branch_radius" then l.length x else if name = "vertex_height" then l.height x else x

def item (name : Text) : Item α → Item α
  | .real x => .real (l.measure name x)
  | other => other

def column (name : Text) (c : Column α) : Column α := { c with items := c.items.map (l.item name) }

def columns (table : Table Text (Column α)) : Table Text (Column α) :=
  table.map fun entry => (entry.1, l.column entry.1 entry.2)

def chunk (c : Chunk α) : Chunk α :=
  { c with positions := c.positions.map l.point, attributes := l.columns c.attributes }

def mesh (m : Mesh α) : Mesh α :=
  { m with positions := m.positions.map l.point, attributes := l.columns m.attributes }

@[simp] theorem vertexCount_chunk (c : Chunk α) : (l.chunk c).vertexCount = c.vertexCount := List.length_map _

theorem column?_chunk (c : Chunk α) (name : Text) : (l.chunk c).column? name = (c.column? name).map (l.column name) :=
  Table.get?_map name l.column c.attributes

theorem column?_mesh (m : Mesh α) (name : Text) : (l.mesh m).column? name = (m.column? name).map (l.column name) :=
  Table.get?_map name l.column m.attributes

theorem items_chunk (c : Chunk α) (name : Text) : (l.chunk c).items name = (c.items name).map (l.item name) := by
  rw [Chunk.items, column?_chunk, Chunk.items]
  cases c.column? name <;> rfl

theorem chunk_withAttribute (c : Chunk α) (name : Text) (column : Column α) :
    l.chunk (c.withAttribute name column) = (l.chunk c).withAttribute name (l.column name column) := by
  have attributes := Table.map_put l.column name column c.attributes
  simp only [chunk, Chunk.withAttribute, columns, attributes]

theorem conforms_chunk {c : Chunk α} {schema : Schema} (conforms : c.Conforms schema) :
    (l.chunk c).Conforms schema where
  names := by
    intro name
    rw [← conforms.names name]
    exact iff_of_eq (congrArg (name ∈ ·) (Table.keys_map l.column c.attributes))
  normals := by
    rw [vertexCount_chunk]
    exact conforms.normals
  columns := by
    intro entry member
    obtain ⟨old, own, rfl⟩ := List.mem_map.mp member
    obtain ⟨length, format, shape⟩ := conforms.columns old own
    refine ⟨?_, format, shape⟩
    rw [vertexCount_chunk, ← length]
    exact List.length_map _

theorem shiftedFaces_map_chunk (first : Nat) (chunks : List (Chunk α)) :
    Chunk.shiftedFaces first (chunks.map l.chunk) = Chunk.shiftedFaces first chunks := by
  induction chunks generalizing first with
  | nil => rfl
  | cons c chunks ih =>
      rw [List.map_cons, Chunk.shiftedFaces, Chunk.shiftedFaces, vertexCount_chunk, ih]
      rfl

theorem merge_map_chunk {chunks : List (Chunk α)} {schema : Schema} (each : ∀ c ∈ chunks, c.Conforms schema) :
    Mesh.merge (chunks.map l.chunk) (some schema) = (Mesh.merge chunks (some schema)).map l.mesh := by
  have alike : ∀ c ∈ chunks.map l.chunk, c.Conforms schema := by
    intro c member
    obtain ⟨old, own, rfl⟩ := List.mem_map.mp member
    exact l.conforms_chunk (each old own)
  rw [Mesh.merge_of_conforms alike, Mesh.merge_of_conforms each, shiftedFaces_map_chunk]
  cases Faces.stack? (Chunk.shiftedFaces 0 chunks) with
  | none => rfl
  | some faces =>
      have positions : (chunks.map l.chunk).flatMap Chunk.positions = (chunks.flatMap Chunk.positions).map l.point := by
        rw [List.flatMap_map, List.map_flatMap]
        rfl
      have normals : (chunks.map l.chunk).flatMap Chunk.normals = chunks.flatMap Chunk.normals := List.flatMap_map ..
      have items (name : Text) : ((chunks.map l.chunk).flatMap fun c => c.items name) =
          (chunks.flatMap fun c => c.items name).map (l.item name) := by
        rw [List.flatMap_map, List.map_flatMap]
        exact congrArg (chunks.flatMap ·) (funext fun c => l.items_chunk c name)
      simp only [positions, normals, items, Except.map, mesh, columns, List.map_map]
      rfl

end

section

variable {α : Type} [Scalar α] (l : Likeness α)

def frustum (f : Frustum α) : Frustum α :=
  { f with
    base := l.point f.base
    baseRadius := l.length f.baseRadius
    topRadius := l.length f.topRadius
    height := l.length f.height }

def ball (b : Ball α) : Ball α := ⟨l.point b.center, l.length b.radius⟩

def assembler (a : Assembler α) : Assembler α := { a with leafRadius := l.length a.leafRadius }

end

namespace Similar

variable {l : Likeness ℝ} {k : ℝ}

theorem measured_chunk (similar : l.Similar k) (c : Chunk ℝ) (radius : ℝ) :
    Assembler.measured (l.chunk c) (l.length radius) = l.chunk (Assembler.measured c radius) := by
  have thick : l.column "branch_radius" (.constant c.vertexCount radius) =
      .constant c.vertexCount (l.length radius) := by
    simp only [column, Column.constant, Column.ofReals, List.map_replicate]
    rfl
  have high : l.column "vertex_height" (.ofReals .single (c.positions.map Vec3.y)) =
      .ofReals .single ((c.positions.map l.point).map Vec3.y) := by
    simp only [column, Column.ofReals, List.map_map]
    congr 1
    refine List.map_congr_left fun p _ => ?_
    exact congrArg Item.real (similar.height p).symm
  rw [Assembler.measured, Assembler.measured, chunk_withAttribute, chunk_withAttribute, thick, high, vertexCount_chunk]
  rfl

theorem slope_frustum (similar : l.Similar k) (f : Frustum ℝ) : (l.frustum f).slope = f.slope := by
  have nonzero : k ≠ 0 := similar.positive.ne'
  have flat : (l.length f.height == 0) = (f.height == 0) := by
    rw [similar.length]
    exact decide_eq_decide.mpr (mul_eq_zero_iff_left nonzero)
  have lean : (l.length f.baseRadius - l.length f.topRadius) / l.length f.height =
      (f.baseRadius - f.topRadius) / f.height := by
    rw [similar.length, similar.length, similar.length, ← mul_sub, mul_div_mul_left _ _ nonzero]
  simp only [Frustum.slope, frustum, flat, lean]

theorem ring_length (similar : l.Similar k) (n : Nat) (radius height : ℝ) :
    Frustum.ring n (l.length radius) (l.length height) = (Frustum.ring n radius height).map (Vec3.scale k) := by
  rw [Frustum.ring, Frustum.ring, List.map_map]
  refine List.map_congr_left fun i _ => ?_
  simp only [Function.comp_apply, Vec3.scale, similar.length, mul_assoc]

theorem localPositions_frustum (similar : l.Similar k) (f : Frustum ℝ) (n : Nat) :
    (l.frustum f).localPositions n = (f.localPositions n).map (Vec3.scale k) := by
  have bottom : Frustum.ring n (l.length f.baseRadius) 0 = (Frustum.ring n f.baseRadius 0).map (Vec3.scale k) := by
    rw [← similar.ring_length, similar.length_zero]
  have top := similar.ring_length n f.topRadius f.height
  have axis (y : ℝ) : Vec3.scale k ⟨0, y, 0⟩ = ⟨0, l.length y, 0⟩ := by
    rw [Vec3.scale, similar.length, mul_zero]
  simp only [Frustum.localPositions, frustum, bottom, top, List.map_append, List.map_cons, List.map_nil, axis,
    similar.length_zero]

theorem chunk_frustum (similar : l.Similar k) (f : Frustum ℝ) (count : Int) :
    (l.frustum f).chunk count = (f.chunk count).map l.chunk := by
  have placed (p : Vec3 ℝ) : (l.frustum f).place (p.scale k) = l.point (f.place p) :=
    similar.turned f.orientation p f.base
  rw [Frustum.chunk, Frustum.chunk, similar.slope_frustum]
  cases steppedLengthOf count with
  | error fault => rfl
  | ok n =>
      cases f.slope with
      | error fault => rfl
      | ok slope =>
          have positions : ((l.frustum f).localPositions n).map (fun p => ((l.frustum f).place p).single) =
              ((f.localPositions n).map fun p => (f.place p).single).map l.point := by
            rw [similar.localPositions_frustum, List.map_map, List.map_map]
            exact List.map_congr_left fun p _ => placed p
          simp only [Outcome.ok_bind, Outcome.pure_eq, positions]
          rfl

theorem chunk_ball (similar : l.Similar k) (b : Ball ℝ) (segments rings : Int) :
    (l.ball b).chunk segments rings = (b.chunk segments rings).map l.chunk := by
  have placed (v : Vec3 ℝ) : (l.ball b).place v = l.point (b.place v) := by
    rw [Ball.place, Ball.place, similar.point, ← similar.scale_length]
    rfl
  rw [Ball.chunk, Ball.chunk]
  cases Ball.markCount (rings + 1) with
  | error fault => rfl
  | ok rows =>
      cases Ball.markCount (segments + 1) with
      | error fault => rfl
      | ok columns =>
          have positions : (Ball.directions rows columns).map (fun v => ((l.ball b).place v).single) =
              ((Ball.directions rows columns).map fun v => (b.place v).single).map l.point := by
            rw [List.map_map]
            exact List.map_congr_left fun v _ => placed v
          simp only [Outcome.ok_bind, Outcome.pure_eq, positions]
          cases lengthBelow (roomLimit + 1) (rows * columns : Int) <;> rfl

theorem measured_map (similar : l.Similar k) {drawn alike : Except (Fault ℝ) (Chunk ℝ)}
    (same : alike = drawn.map l.chunk) (radius : ℝ) :
    (do return Assembler.measured (← alike) (l.length radius) : Except (Fault ℝ) (Chunk ℝ)) =
      (do return Assembler.measured (← drawn) radius : Except (Fault ℝ) (Chunk ℝ)).map l.chunk := by
  subst same
  cases drawn with
  | error fault => rfl
  | ok c => exact congrArg Except.ok (similar.measured_chunk c radius)

theorem chunk_event (similar : l.Similar k) (a : Assembler ℝ) (event : Event ℝ) :
    (l.assembler a).chunk (l.event event) = (a.chunk event).map l.chunk := by
  cases event with
  | segment s => exact similar.measured_map (similar.chunk_frustum s.frustum a.radialSegments) s.baseRadius
  | leaf f =>
      exact similar.measured_map (similar.chunk_ball ⟨f.position, a.leafRadius⟩ a.leafSegments a.leafSegments) f.radius

theorem assemble_events (similar : l.Similar k) (a : Assembler ℝ) (events : List (Event ℝ)) :
    (l.assembler a).assemble (events.map l.event) = (a.assemble events).map l.mesh := by
  rw [Assembler.assemble, Assembler.assemble, Outcome.mapM_map (similar.chunk_event a)]
  cases made : events.mapM a.chunk with
  | error fault => rfl
  | ok chunks => exact l.merge_map_chunk (a.conforms_chunks (Assembler.draws_of_mapM made))

end Similar

end Likeness

end Arbor
