import Arbor.Place
import Arbor.Wind.Basic

namespace Arbor

structure VertexSway (α : Type) where
  speed : α
  amplitude : α
  baseThreshold : α
  useNoise : Bool
  circular : Bool
  radiusFalloff : Bool
  deriving Repr

namespace VertexSway

variable {α : Type} [Scalar α]

def standard : VertexSway α :=
  { speed := 1
    amplitude := Scalar.ratio 25 1000
    baseThreshold := 0
    useNoise := true
    circular := true
    radiusFalloff := false }

/-- How much a vertex at a height gives way: not at all below the threshold. -/
def reach (s : VertexSway α) (height : α) : α := if height < s.baseThreshold then 0 else height

/-- How much every vertex gives way; with falloff, less the thicker its branch is. -/
def reaches (s : VertexSway α) (radii heights : List α) : Except (Fault α) (List α) :=
  if s.radiusFalloff then do
    return (← sideBySide (heights.map s.reach) radii).map fun (h, r) => h / (r + 1)
  else .ok (heights.map s.reach)

def phase (s : VertexSway α) (time : α) (noise : Option α) : α :=
  match s.useNoise, noise with
  | true, some n => time * s.speed + n * Scalar.pi
  | _, _ => time * s.speed

def push (s : VertexSway α) (angle amplitude : α) (along aside : Vec3 α) (reach : α) : Vec3 α :=
  let forth := along.scale (Scalar.sin angle * amplitude * reach)
  if s.circular then forth + aside.scale (Scalar.cos angle * amplitude * reach) else forth

def offsets (s : VertexSway α) (radii heights : List α) (time : α) (wind : Wind α) :
    Except (Fault α) (List (Vec3 α)) := do
  let direction ← wind.checked
  let reaches ← s.reaches radii heights
  let angle := s.phase time wind.noise
  let amplitude := s.amplitude * wind.strength
  let (along, aside) ← Wind.axes direction
  return reaches.map fun reach => (s.push angle amplitude along aside reach).single

end VertexSway

end Arbor
