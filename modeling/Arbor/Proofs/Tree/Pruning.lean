import Arbor.Proofs.Mesh.Clearing
import Arbor.Proofs.Tree.Building
import Arbor.Proofs.Turtle.Idling

namespace Arbor

variable {α : Type} [Scalar α]

namespace Rig

variable {a : Assembler α} {events : List (Event α)} {chunks : List (Chunk α)}

theorem map_dressed {β : Type} (part : Chunk α → β) (kept : ∀ c bone, part (bound c bone) = part c)
    (drawn : a.Draws events chunks) : (dressed events chunks).map part = chunks.map part := by
  induction drawn with
  | nil => rfl
  | @cons event first events rest _ _ ih =>
      rw [dressed] at ih
      rw [dressed, List.zipWith_cons_cons, List.map_cons, List.map_cons, kept, ih]

theorem foldl_sprouted (events : List (Event α)) (bones : Array (Bone α)) :
    events.foldl sprouted bones = ((segments events).map Event.segment).foldl sprouted bones := by
  induction events generalizing bones with
  | nil => rfl
  | cons event later ih =>
      cases event with
      | segment s => exact ih _
      | leaf l => exact ih _

theorem clears_carried (drawn : a.Draws events chunks) {still : Mesh α}
    (merged : Mesh.merge chunks (some staticSchema) = .ok still) {gone : List Bool}
    (left : a.Draws (thin gone events) (thin gone chunks)) :
    ∃ less, Mesh.merge (thin gone chunks) (some staticSchema) = .ok less ∧
      (carried still (owners events chunks)).Clears gone (chunks.map Chunk.vertexCount) (chunks.map Chunk.faces)
        (carried less (owners (thin gone events) (thin gone chunks))) := by
  have whole : Mesh.merge (dressed events chunks) (some skinnedSchema) =
      .ok (carried still (owners events chunks)) := by
    rw [merge_dressed drawn, merged]
    rfl
  obtain ⟨bending, again, clears⟩ := Mesh.clears_of_merge (conforms_dressed drawn) whole gone
  have parts : thin gone (dressed events chunks) = dressed (thin gone events) (thin gone chunks) :=
    thin_zipWith _ gone events chunks
  rw [parts, merge_dressed left] at again
  obtain ⟨less, rest, same⟩ := Outcome.bind_eq_ok again
  cases same
  rw [map_dressed Chunk.vertexCount (fun _ _ => rfl) drawn, map_dressed Chunk.faces (fun _ _ => rfl) drawn] at clears
  exact ⟨less, rest, clears⟩

end Rig

theorem Buffers.clears_of_ofEvents {p : TreeParams α} {place : Vec3 α} {events : List (Event α)} {gone : List Bool}
    (numbered : Numbered 0 events) (still : Numbered 0 (thin gone events))
    (same : segments (thin gone events) = segments events) {b : Buffers α} (drawn : ofEvents p place events = .ok b) :
    ∃ less chunks, ofEvents p place (thin gone events) = .ok less ∧ events.mapM p.assembler.chunk = .ok chunks ∧
      b.mesh.Clears gone (chunks.map Chunk.vertexCount) (chunks.map Chunk.faces) less.mesh ∧
      less.skeleton = b.skeleton := by
  cases mode : p.mode with
  | static =>
      simp only [ofEvents, mode] at drawn ⊢
      obtain ⟨mesh, assembled, one⟩ := Outcome.bind_eq_ok drawn
      cases one
      obtain ⟨chunks, made, merged⟩ := Outcome.bind_eq_ok assembled
      have each := p.assembler.conforms_chunks (Assembler.draws_of_mapM made)
      obtain ⟨less, again, clears⟩ := Mesh.clears_of_merge each merged gone
      refine ⟨⟨less, none⟩, chunks, ?_, made, clears, rfl⟩
      rw [Assembler.assemble, mapM_thin made gone, Outcome.ok_bind, again]
      rfl
  | skinned =>
      obtain ⟨skeleton, accepted, -⟩ := Rig.accepted_of_numbered place numbered
      have kept : Skeleton.ofBones ((thin gone events).foldl Rig.sprouted (Rig.start place).bones) = .ok skeleton := by
        rwa [Rig.foldl_sprouted, same, ← Rig.foldl_sprouted]
      simp only [ofEvents, mode] at drawn ⊢
      obtain ⟨rigged, built, one⟩ := Outcome.bind_eq_ok drawn
      cases one
      have storable := (Rig.exists_of_build numbered built).1
      have fewer : Rig.Storable (thin gone events) := by
        rw [Rig.storable_iff still, same, ← Rig.storable_iff numbered]
        exact storable
      rw [Rig.build_of_storable p.assembler numbered storable accepted] at built
      rw [Rig.build_of_storable p.assembler still fewer kept]
      obtain ⟨chunks, made, built⟩ := Outcome.bind_eq_ok built
      obtain ⟨mesh, merged, one⟩ := Outcome.bind_eq_ok built
      cases one
      have rest := mapM_thin made gone
      obtain ⟨less, again, clears⟩ := Rig.clears_carried (Assembler.draws_of_mapM made) merged
        (Assembler.draws_of_mapM rest)
      refine ⟨⟨_, some skeleton⟩, chunks, ?_, made, clears, rfl⟩
      rw [rest, Outcome.ok_bind, again]
      rfl

namespace Gait

/-- Code points that mean nothing to a turtle may be taken out of a word and change nothing. Leaves may be taken out as
well: nothing but these leaves is missing among the events, and a tree loses their blocks and nothing else. -/
theorem idle_inert (g : Gait α) (marks : List Bool) (word : Text) :
    ((∀ (i : Nat) p, marks[i]? = some true → word[i]? = some p → p ∉ Symbol.alphabet) →
        g.events (thin marks word) = g.events word ∧ (g.walk (thin marks word)).turtle = (g.walk word).turtle) ∧
      ((∀ (i : Nat) p, marks[i]? = some true → word[i]? = some p → p = .scalar 'l') →
        ∃ gone : List Bool,
          (∀ k : Nat, gone[k]? = some true ↔ ∃ i : Nat, marks[i]? = some true ∧ word.Places k i) ∧
          (∀ (k : Nat) event, gone[k]? = some true → (g.events word)[k]? = some event → ∃ l, event = .leaf l) ∧
          g.events (thin marks word) = thin gone (g.events word) ∧
          segments (g.events (thin marks word)) = segments (g.events word) ∧
          (g.walk (thin marks word)).turtle = (g.walk word).turtle ∧
          ∀ (p : TreeParams α) (place : Vec3 α) (b : Buffers α),
            Buffers.ofEvents p place (g.events word) = .ok b →
              ∃ less chunks, Buffers.ofEvents p place (g.events (thin marks word)) = .ok less ∧
                (g.events word).mapM p.assembler.chunk = .ok chunks ∧
                b.mesh.Clears gone (chunks.map Chunk.vertexCount) (chunks.map Chunk.faces) less.mesh ∧
                less.skeleton = b.skeleton) := by
  constructor
  · intro passive
    exact ⟨g.events_thin_of_passive passive, (g.events_thin fun i p mark read => .inl (passive i p mark read)).2⟩
  · intro leaves
    have idle (i : Nat) (p : CodePoint) (mark : marks[i]? = some true) (read : word[i]? = some p) : Idle p :=
      .inr (leaves i p mark read)
    obtain ⟨events, turtle⟩ := g.events_thin idle
    have same := g.segments_thin idle
    refine ⟨word.placing marks, fun k => Text.getElem?_placing, fun k event => g.leaf_of_placing idle, events, same,
      turtle, ?_⟩
    intro p place b drawn
    have still := g.numbered_events (thin marks word)
    rw [events] at still same ⊢
    exact Buffers.clears_of_ofEvents (g.numbered_events word) still same drawn

theorem idle_inert_bough :
    let p : TreeParams Float := { TreeParams.standard with mode := .skinned }
    let g : Gait Float := p.gait 0
    let word : Text := ['f', 'l', 'A', '[', '+', 'f', 'l', ']']
    g.events (thin [false, false, true] word) = g.events word ∧
      thin [false, true] word = ['f', 'A', '[', '+', 'f', 'l', ']'] ∧
      ∃ (gone : List Bool) (b less : Buffers Float) (chunks : List (Chunk Float)),
        gone[1]? = some true ∧ Buffers.ofEvents p 0 (g.events word) = .ok b ∧
        Buffers.ofEvents p 0 (g.events (thin [false, true] word)) = .ok less ∧
        (g.events word).mapM p.assembler.chunk = .ok chunks ∧
        b.mesh.Clears gone (chunks.map Chunk.vertexCount) (chunks.map Chunk.faces) less.mesh ∧
        less.skeleton = b.skeleton := by
  intro p g word
  have valid : ({ (TreeParams.standard : TreeParams Float) with mode := .skinned }).validate = .ok () := by rfl
  have total : p.vertexTotal word = 230 := by decide
  have room : p.vertexTotal word ≤ 2 ^ 32 := by
    rw [total]
    decide
  obtain ⟨b, drawn, -⟩ := TreeParams.buffers_of_usable (TreeParams.usable_iff.mp valid) positiveApart_float 0 room
  have passive : ∀ (i : Nat) q, [false, false, true][i]? = some true → word[i]? = some q → q ∉ Symbol.alphabet := by
    rintro (_ | _ | _ | i) q mark read
    · cases mark
    · cases mark
    · cases read
      decide
    · cases mark
  have leaf : ∀ (i : Nat) q, [false, true][i]? = some true → word[i]? = some q → q = .scalar 'l' := by
    rintro (_ | _ | i) q mark read
    · cases mark
    · cases read
      rfl
    · cases mark
  obtain ⟨gone, marked, -, -, -, -, cleared⟩ := (idle_inert g [false, true] word).2 leaf
  obtain ⟨less, chunks, pruned, made, clears, skeleton⟩ := cleared p 0 b drawn
  have first : gone[1]? = some true := (marked 1).mpr ⟨1, rfl, .inr rfl, rfl⟩
  exact ⟨((idle_inert g [false, false, true] word).1 passive).1, rfl, gone, b, less, chunks, first, drawn, pruned, made,
    clears, skeleton⟩

end Gait

end Arbor
