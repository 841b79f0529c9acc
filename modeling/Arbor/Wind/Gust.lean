import Arbor.Place
import Arbor.Wind.Twister

/-!
# Gusts

Smooth noise along time: a random slope at every lattice point, blended in between, zero at the
points themselves. Slopes repeat after a period.
-/

namespace Arbor

structure Gusts (α : Type) where
  scale : α
  period : Int
  gradients : Array α

namespace Gusts

variable {α : Type} [Scalar α]

def lerp (a b t : α) : α := a + t * (b - a)

/-- From zero to one, flat at both ends: six times the fifth power, less fifteen times the fourth, plus ten times the
third. -/
def fade (t : α) : α := t * t * t * (t * (t * Scalar.ofInt 6 - Scalar.ofInt 15) + Scalar.ofInt 10)

/-- A number between zero and one from 53 bits of two words: 27 high bits of the one and 26 of the other. -/
@[inline] def fraction (a b : UInt32) : α :=
  (Scalar.ofInt (a >>> 5).toNat * Scalar.ofInt 67108864 + Scalar.ofInt (b >>> 6).toNat) / Scalar.ofInt (Int.pow 2 53)

@[specialize] def slopes (words : Array UInt32) (count : Nat) : Array α :=
  Array.ofFn fun i : Fin count =>
    -1 + Scalar.ofInt 2 * fraction (words.getD (2 * i) 0) (words.getD (2 * i + 1) 0)

@[simp] theorem size_slopes (words : Array UInt32) (count : Nat) :
    (slopes (α := α) words count).size = count := by
  simp [slopes]

@[specialize] def ofWords (scale : α) (period : Int) (words : Nat → Array UInt32) : Except (Fault α) (Gusts α) := do
  let count ← lengthOf period
  return ⟨scale, period, slopes (words (2 * count)) count⟩

@[specialize] def ofSeed (scale : α) (period seed : Int) : Except (Fault α) (Gusts α) :=
  if seed < 0 ∨ Int.pow 2 32 ≤ seed then .error .seed
  else ofWords scale period (Twister.words (UInt32.ofNat seed.toNat))

def blend (left right offset : α) : α :=
  Scalar.ofInt 2 * lerp (left * offset) (right * (offset - 1)) (fade offset)

def gradient (g : Gusts α) (i : Int) : Except (Fault α) α :=
  match g.gradients[(i % g.period).toNat]? with
  | some slope => .ok slope
  | none => .error .outOfRange

def sample (g : Gusts α) (time : α) : Except (Fault α) α := do
  let x := time * g.scale
  let i := Scalar.cell x
  return blend (← g.gradient i) (← g.gradient (i + 1)) (x - Scalar.ofInt i)

end Gusts

end Arbor
