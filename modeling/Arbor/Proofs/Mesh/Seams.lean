import Arbor.Proofs.Mesh.Layout
import Arbor.Proofs.Mesh.Roundness

namespace Arbor

namespace Frustum

inductive Doubled (n : Nat) : Nat → Nat → Prop
  | bottom {i : Nat} (inside : i < n) : Doubled n i (2 * n + i)
  | top {i : Nat} (inside : i < n) : Doubled n (n + i) (3 * n + 1 + i)

theorem Doubled.lt {n i j : Nat} (doubled : Doubled n i j) : i < 4 * n + 2 ∧ j < 4 * n + 2 := by
  cases doubled <;> omega

variable {α : Type} [Scalar α]

theorem Doubled.getElem? {n i j : Nat} (doubled : Doubled n i j) (f : Frustum α) :
    (f.localPositions n)[i]? = (f.localPositions n)[j]? := by
  cases doubled with
  | bottom inside => exact (f.getElem?_caps inside).1.symm
  | top inside => exact (f.getElem?_caps inside).2.symm

end Frustum

namespace Assembler

/-- The two copies of a vertex on a ring of a segment. -/
def Doubled {α : Type} (a : Assembler α) : Event α → Nat → Nat → Prop
  | .segment _ => Frustum.Doubled a.radialSegments.toNat
  | .leaf _ => fun _ _ => False

/-- The copies of a vertex on a ring of a segment, and those on the seam of a leaf or at one of its poles. -/
def Welded {α : Type} (a : Assembler α) : Event α → Nat → Nat → Prop
  | .segment _ => Frustum.Doubled a.radialSegments.toNat
  | .leaf _ => fun i j =>
      i < (a.leafSegments.toNat + 1) ^ 2 ∧
        Ball.weld a.leafSegments.toNat a.leafSegments.toNat i = Ball.weld a.leafSegments.toNat a.leafSegments.toNat j

section

variable {α : Type} [Scalar α] {a : Assembler α}

/-- Pairs of vertices that lie at one place whenever an event is drawn. -/
def Twins (a : Assembler α) (pairs : Event α → Nat → Nat → Prop) : Prop :=
  ∀ event c i j, a.Portrays event c → pairs event i j →
    i < a.vertices event ∧ j < a.vertices event ∧ c.positions[i]? = c.positions[j]?

theorem twins_doubled (fine : a.Fine) : a.Twins a.Doubled := by
  intro event c i j portrays doubled
  cases event with
  | leaf l => exact doubled.elim
  | segment s =>
      obtain ⟨plain, drawn, same⟩ := Outcome.bind_eq_ok portrays.made
      cases same
      rw [← fine.natCast_radial] at drawn
      refine ⟨doubled.lt.1, doubled.lt.2, ?_⟩
      change plain.positions[i]? = plain.positions[j]?
      rw [Frustum.positions_of_chunk drawn, List.getElem?_map, List.getElem?_map, doubled.getElem?]

end

/-- In exact arithmetic leaves have no open seam either. -/
theorem twins_welded {a : Assembler ℝ} (fine : a.Fine) : a.Twins a.Welded := by
  intro event c i j portrays welded
  cases event with
  | segment s => exact twins_doubled fine (.segment s) c i j portrays welded
  | leaf l =>
      obtain ⟨plain, drawn, same⟩ := Outcome.bind_eq_ok portrays.made
      cases same
      rw [← fine.natCast_leaf] at drawn
      have leaf := fine.leaf
      obtain ⟨inside, one⟩ := welded
      have together : plain.positions[i]? = plain.positions[j]? :=
        ((Ball.encloses_of_chunk (by omega) (by omega) drawn).welded i j one).1
      have size : plain.positions.length = (a.leafSegments.toNat + 1) ^ 2 :=
        ((Ball.shaped_of_drawn (by omega) (by omega) drawn).vertices).trans (Nat.pow_two _).symm
      refine ⟨inside, ?_, together⟩
      have here := List.getElem?_eq_getElem (inside.trans_eq size.symm)
      rw [together] at here
      exact (List.getElem?_eq_some_iff.mp here).1.trans_eq size

variable {α : Type} [Scalar α] {a : Assembler α} {events : List (Event α)} {chunks : List (Chunk α)}

theorem getElem?_flatMap {β : Type} {buffer : Chunk α → List β}
    (size : ∀ event c, a.Portrays event c → (buffer c).length = a.vertices event)
    (each : List.Forall₂ a.Portrays events chunks) {k : Nat} {event : Event α} (placed : events[k]? = some event) :
    ∃ c, chunks[k]? = some c ∧ a.Portrays event c ∧
      ∀ i < a.vertices event, (chunks.flatMap buffer)[a.offset events k + i]? = (buffer c)[i]? := by
  obtain ⟨c, drawn, portrays, same⟩ := block_flatMap size each placed
  refine ⟨c, drawn, portrays, fun i inside => ?_⟩
  rw [← same, block, List.getElem?_take_of_lt inside, List.getElem?_drop]

/-- Two vertices of a mesh that are a pair of one event. -/
def Together (a : Assembler α) (events : List (Event α)) (pairs : Event α → Nat → Nat → Prop) (v w : Nat) : Prop :=
  ∃ k event i j, events[k]? = some event ∧ pairs event i j ∧ v = a.offset events k + i ∧ w = a.offset events k + j

theorem exists_of_together {pairs : Event α → Nat → Nat → Prop} (twins : a.Twins pairs)
    (each : List.Forall₂ a.Portrays events chunks) {v w : Nat} (together : a.Together events pairs v w) :
    ∃ k event i j p, events[k]? = some event ∧ (i < a.vertices event ∧ j < a.vertices event) ∧
      (v = a.offset events k + i ∧ w = a.offset events k + j) ∧
      (chunks.flatMap Chunk.positions)[v]? = some p ∧ (chunks.flatMap Chunk.positions)[w]? = some p := by
  obtain ⟨k, event, i, j, placed, pair, rfl, rfl⟩ := together
  obtain ⟨c, -, portrays, same⟩ := getElem?_flatMap (fun _ _ shows => shows.shaped.vertices) each placed
  obtain ⟨here, there, one⟩ := twins event c i j portrays pair
  have point := List.getElem?_eq_getElem (here.trans_eq portrays.shaped.vertices.symm)
  exact ⟨k, event, i, j, _, placed, ⟨here, there⟩, ⟨rfl, rfl⟩, (same i here).trans point,
    (same j there).trans (one.symm.trans point)⟩

end Assembler

end Arbor
