import Arbor.Proofs.Outcome
import Arbor.Wind.VertexSway

namespace Arbor.VertexSway

open Outcome

variable {α : Type} [Scalar α] {s : VertexSway α} {radii heights : List α} {time : α} {wind : Wind α}

def give (s : VertexSway α) (radius height : α) : α :=
  if s.radiusFalloff then s.reach height / (radius + 1) else s.reach height

def shove (s : VertexSway α) (time : α) (wind : Wind α) (along aside : Vec3 α) (radius height : α) : Vec3 α :=
  (s.push (s.phase time wind.noise) (s.amplitude * wind.strength) along aside (s.give radius height)).single

theorem reaches_of_length (same : radii.length = heights.length) :
    s.reaches radii heights = .ok (List.zipWith s.give radii heights) := by
  have even : (heights.map s.reach).length = radii.length := by rw [List.length_map, same]
  rw [reaches]
  cases falls : s.radiusFalloff with
  | true =>
      simp only [if_true, sideBySide_of_length even, ok_bind, pure_eq, Except.ok.injEq]
      refine List.ext_getElem (by simp [same]) fun i inside _ => ?_
      simp [give, falls]
  | false =>
      simp only [Bool.false_eq_true, if_false, Except.ok.injEq]
      refine List.ext_getElem (by simp [same]) fun i inside _ => ?_
      simp [give, falls]

theorem offsets_of_axes {direction along aside : Vec3 α} (checked : wind.checked = .ok direction)
    (directed : Wind.axes direction = .ok (along, aside)) (same : radii.length = heights.length) :
    s.offsets radii heights time wind = .ok (List.zipWith (s.shove time wind along aside) radii heights) := by
  rw [offsets, checked, ok_bind, reaches_of_length same, ok_bind, directed, ok_bind]
  exact congrArg Except.ok (List.map_zipWith ..)

theorem exists_axes_of_offsets {rows : List (Vec3 α)} (pushed : s.offsets radii heights time wind = .ok rows)
    (same : radii.length = heights.length) : ∃ along aside,
      (∃ direction, wind.checked = .ok direction ∧ Wind.axes direction = .ok (along, aside)) ∧
      rows = List.zipWith (s.shove time wind along aside) radii heights := by
  obtain ⟨direction, checked, rest⟩ := bind_eq_ok pushed
  obtain ⟨reaches, -, rest⟩ := bind_eq_ok rest
  obtain ⟨⟨along, aside⟩, directed, -⟩ := bind_eq_ok rest
  rw [offsets_of_axes checked directed same] at pushed
  cases pushed
  exact ⟨along, aside, ⟨direction, checked, directed⟩, rfl⟩

end Arbor.VertexSway
