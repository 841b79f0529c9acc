import Arbor.Mesh.Merge
import Arbor.Proofs.Mesh.Shapes

namespace Arbor

theorem Faces.stack?_triangles (blocks : List (List (Triangle UInt32))) :
    stack? (blocks.map triangles) = some (triangles blocks.flatten) := by
  induction blocks with
  | nil => rfl
  | cons first rest ih =>
      cases rest with
      | nil => simp [stack?]
      | cons second rest =>
          rw [List.map_cons, List.map_cons, stack?, ← List.map_cons, ih]
          · rfl
          · intro absent
            cases absent

namespace Chunk

variable {α : Type}

def blocks : Nat → List (Chunk α) → List (List (Triangle UInt32))
  | _, [] => []
  | offset, c :: rest => (c.faces.shifted offset).toTriangles :: blocks (offset + c.vertexCount) rest

theorem stack?_shiftedFaces {chunks : List (Chunk α)} (each : ∀ c ∈ chunks, ∃ rows, c.faces = .triangles rows)
    (offset : Nat) :
    Faces.stack? (shiftedFaces offset chunks) = some (.triangles (blocks offset chunks).flatten) := by
  have same : shiftedFaces offset chunks = (blocks offset chunks).map .triangles := by
    induction chunks generalizing offset with
    | nil => rfl
    | cons c rest ih =>
        obtain ⟨rows, faces⟩ := each c List.mem_cons_self
        have later := ih (fun other member => each other (List.mem_cons_of_mem _ member)) (offset + c.vertexCount)
        rw [shiftedFaces, blocks, List.map_cons, later, faces]
        rfl
  rw [same, Faces.stack?_triangles]

end Chunk

namespace Triangle

theorem shift_ofNat (offset : Nat) (t : Triangle Nat) :
    (t.map UInt32.ofNat).map (· + UInt32.ofNat offset) = (t.map (offset + ·)).map UInt32.ofNat := by
  simp [map, Nat.add_comm offset]

theorem Within.shift {first last : Nat} {t : Triangle Nat} (within : t.Within first last) (offset : Nat) :
    (t.map (offset + ·)).Within (offset + first) (offset + last) := by
  obtain ⟨a, b, c⟩ := t
  rw [within_iff] at within
  simp only [map, within_iff]
  omega

theorem toNat_ofNat {first last : Nat} {t : Triangle Nat} (within : t.Within first last) (room : last ≤ 2 ^ 32) :
    (t.map UInt32.ofNat).map UInt32.toNat = t := by
  obtain ⟨a, b, c⟩ := t
  rw [within_iff] at within
  have stored {i : Nat} (below : i < last) : (UInt32.ofNat i).toNat = i :=
    UInt32.toNat_ofNat_of_lt' (Nat.lt_of_lt_of_le below room)
  rw [map, map, stored within.1.1.2, stored within.1.2.1.2, stored within.1.2.2.2]

end Triangle

end Arbor
