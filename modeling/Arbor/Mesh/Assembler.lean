import Arbor.Mesh.Cylinder
import Arbor.Mesh.Sphere
import Arbor.Mesh.Merge
import Arbor.Turtle.Event

namespace Arbor

structure Assembler (α : Type) where
  radialSegments : Int
  leafRadius : α
  leafSegments : Int
  deriving Repr

def staticSchema : Schema := [("branch_radius", .single), ("vertex_height", .single)]

def Segment.frustum {α : Type} (s : Segment α) : Frustum α :=
  ⟨s.base, s.orientation, s.baseRadius, s.topRadius, s.height⟩

namespace Assembler

variable {α : Type} [Scalar α]

def standard : Assembler α := ⟨8, Scalar.ratio 3 10, 8⟩

def measured (c : Chunk α) (radius : α) : Chunk α :=
  (c.withAttribute "branch_radius" (.constant c.vertexCount radius)).withAttribute "vertex_height"
    (.ofReals .single (c.positions.map Vec3.y))

def segmentChunk (a : Assembler α) (s : Segment α) : Except (Fault α) (Chunk α) := do
  return measured (← s.frustum.chunk a.radialSegments) s.baseRadius

def leafChunk (a : Assembler α) (l : Leaf α) : Except (Fault α) (Chunk α) := do
  let ball : Ball α := ⟨l.position, a.leafRadius⟩
  return measured (← ball.chunk a.leafSegments a.leafSegments) l.radius

def chunk (a : Assembler α) : Event α → Except (Fault α) (Chunk α)
  | .segment s => a.segmentChunk s
  | .leaf l => a.leafChunk l

/-- Whether shapes can be placed from an origin of any number of coordinates. Where they make no point, the first
event fails: a segment at once, and a leaf once its ball has been made. -/
def checkOrigin (a : Assembler α) (origin : List α) (events : List (Event α)) : Except (Fault α) Unit := do
  if (Vec3.spread? origin).isSome then return
  match events.head? with
  | none => return
  | some (.segment _) => throw .shape
  | some (.leaf l) => do
      let _ ← a.leafChunk l
      throw .shape

def assemble (a : Assembler α) (events : List (Event α)) : Except (Fault α) (Mesh α) := do
  Mesh.merge (← events.mapM a.chunk) (some staticSchema)

end Assembler

end Arbor
