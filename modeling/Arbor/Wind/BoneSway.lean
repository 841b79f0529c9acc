import Arbor.Wind.Basic

namespace Arbor

structure BoneSway (α : Type) where
  flexibility : α
  phaseStep : α
  strengthScale : α
  deriving Repr

namespace BoneSway

variable {α : Type} [Scalar α]

def standard : BoneSway α := ⟨1, Scalar.ratio 1 10, Scalar.ratio 1 100⟩

def influence (s : BoneSway α) (radius : α) : α := s.flexibility / (radius + 1)

def angles (s : BoneSway α) (direction : Vec3 α) (strength start : α) (i : Nat) (radius : α) : Vec3 α :=
  let t := start + Scalar.ofInt i * s.phaseStep
  let influence := s.influence radius
  ⟨direction.x * strength * influence * Scalar.sin t, 0,
   direction.z * strength * influence * Scalar.cos t⟩

def turns (s : BoneSway α) (radii : List α) (time : α) (wind : Wind α) (phase : α) :
    Except (Fault α) (List (Vec3 α)) := do
  let direction ← wind.checked
  let strength := wind.strength * s.strengthScale
  return radii.mapIdx fun i radius =>
    if i = 0 then 0 else s.angles direction strength (time + phase) i radius

end BoneSway

end Arbor
