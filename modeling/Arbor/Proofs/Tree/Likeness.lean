import Arbor.Proofs.Skeleton.Likeness
import Arbor.Proofs.Skeleton.Rigidity
import Arbor.Proofs.Tree.Change
import Arbor.Proofs.Tree.Swaying

/-!
# Trees that are alike

In exact arithmetic a tree that is built somewhere else is the same tree, shifted, and one that is built with larger
radii and longer branches is the same tree, enlarged about where it stands. Whatever its bones are turned by, it bends
alike.
-/

namespace Arbor

namespace Likeness

section

variable {α : Type} (l : Likeness α)

def buffers (b : Buffers α) : Buffers α := ⟨l.mesh b.mesh, b.skeleton.map l.skeleton⟩

/-- What becomes of a tree, as it is built with other parameters. -/
def asset (q : TreeParams α) (a : Asset α) : Asset α := { a with params := q, buffers := a.buffers.map l.buffers }

def params (p : TreeParams α) (place : Vec3 α) : TreeParams α :=
  { p with
    startRadius := l.length p.startRadius
    branchLength := l.length p.branchLength
    leafRadius := l.length p.leafRadius
    position := (l.point place).toList }

end

/-- With other parameters a word draws what becomes of the tree that it drew, or both builds stop at the same fault.
Where the trees bend, the same angles take their vertices to points that are alike. -/
structure Relates (l : Likeness ℝ) (p q : TreeParams ℝ) (word : Text) : Prop where
  built : Asset.build q word = (Asset.build p word).map (l.asset q)
  posed : ∀ a, Asset.build p word = .ok a → a.mode = .skinned → ∃ mesh s, a.mesh? = some mesh ∧ a.skeleton? = some s ∧
    ∀ angles, (l.skeleton s).skin (l.mesh mesh) angles = (s.skin mesh angles).map (List.map l.point)

namespace Similar

variable {l : Likeness ℝ} {k : ℝ} {p : TreeParams ℝ} {place : Vec3 ℝ}

theorem checked_params (similar : l.Similar k) (checked : p.checked = .ok place) :
    (l.params p place).checked = .ok (l.point place) := by
  obtain ⟨-, usable⟩ := TreeParams.checked_eq_ok.mp checked
  have positive {r : ℝ} (above : 0 < r) : 0 < l.length r := by
    rw [similar.length]
    exact mul_pos similar.positive above
  refine TreeParams.checked_eq_ok.mpr ⟨rfl, fun _ _ => rfl, ⟨rfl, fun _ _ => rfl⟩, ?_, usable.narrowing, usable.rings⟩
  exact ⟨positive usable.positive.1, positive usable.positive.2.1, positive usable.positive.2.2⟩

theorem buffers_events (similar : l.Similar k) {events : List (Event ℝ)} (numbered : Numbered 0 events) :
    Buffers.ofEvents (l.params p place) (l.point place) (events.map l.event) =
      (Buffers.ofEvents p place events).map l.buffers := by
  have assembler : (l.params p place).assembler = l.assembler p.assembler := rfl
  have mode : (l.params p place).mode = p.mode := rfl
  rw [Buffers.ofEvents, Buffers.ofEvents, assembler, mode]
  cases p.mode with
  | static =>
      simp only [similar.assemble_events]
      cases p.assembler.assemble events <;> rfl
  | skinned =>
      simp only [similar.build_events p.assembler place numbered]
      cases Rig.build p.assembler place events <;> rfl

theorem build_params (similar : l.Similar k) (checked : p.checked = .ok place) (word : Text) :
    Asset.build (l.params p place) word = (Asset.build p word).map (l.asset (l.params p place)) := by
  have walked : ((l.params p place).gait (l.point place)).walk word = l.walk ((p.gait place).walk word) :=
    similar.walk_gait (p.gait place) word
  have events : (l.walk ((p.gait place).walk word)).events.toList = ((p.gait place).events word).map l.event :=
    Array.toList_map
  have drawn : Buffers.ofEvents (l.params p place) (l.point place) (((p.gait place).events word).map l.event) = _ :=
    similar.buffers_events ((p.gait place).numbered_events word)
  rw [Asset.build, similar.checked_params checked, Asset.build, checked, Outcome.ok_bind, Outcome.ok_bind, walked]
  simp only [Asset.ofWalk, events, drawn, segments_map_event, leaves_map_event, List.length_map]
  rw [← Gait.events]
  cases Buffers.ofEvents p place ((p.gait place).events word) <;> rfl

theorem posed_build (similar : l.Similar k) {word : Text} {a : Asset ℝ} (made : Asset.build p word = .ok a)
    (skins : a.mode = .skinned) :
    ∃ mesh s, a.mesh? = some mesh ∧ a.skeleton? = some s ∧
      ∀ angles, (l.skeleton s).skin (l.mesh mesh) angles = (s.skin mesh angles).map (List.map l.point) := by
  obtain ⟨place, mesh, s, -, rigged, held, bones⟩ := Asset.rig_of_build made skins
  obtain ⟨inPlace, owners, owned, skinned⟩ := Rig.skinned_of_build rigged
  have inside := Rig.inside_of_build ((p.gait place).numbered_events word) rigged owners owned
  exact ⟨mesh, s, held, bones, similar.skin_skeleton inPlace (skinned inside)⟩

theorem relates (similar : l.Similar k) (checked : p.checked = .ok place) (word : Text) :
    l.Relates p (l.params p place) word :=
  ⟨similar.build_params checked word, fun _ made skins => similar.posed_build made skins⟩

end Similar

/-- Parameters that pass build a tree from every word whose segments and leaves can be drawn one by one. Built somewhere
else, in either mode, the tree is only shifted. Built with all its lengths multiplied by a factor above zero it is
enlarged by that factor about where it stands. Both trees bend alike. -/
theorem trees_alike (p : TreeParams ℝ) (place : Vec3 ℝ) (checked : p.checked = .ok place) (word : Text) :
    (p.Fits word → ∃ a, Asset.build p word = .ok a) ∧
    (∀ t : Vec3 ℝ,
      let q := { p with position := (place + t).toList }
      q.checked = .ok (place + t) ∧ (shift t).Relates p q word) ∧
    ∀ k : ℝ, 0 < k →
      let q := { p with
        startRadius := k * p.startRadius, branchLength := k * p.branchLength, leafRadius := k * p.leafRadius }
      q.checked = .ok place ∧ (enlargement place k).Relates p q word := by
  obtain ⟨position, usable⟩ := TreeParams.checked_eq_ok.mp checked
  refine ⟨fun fits => Asset.exists_of_fits positiveApart_real usable fits, ?_, ?_⟩
  · intro t
    have similar := similar_shift t
    exact ⟨similar.checked_params checked, similar.relates checked word⟩
  · intro k positive
    have similar := similar_enlargement place positive
    have same : (enlargement place k).params p place = { p with
        startRadius := k * p.startRadius, branchLength := k * p.branchLength, leafRadius := k * p.leafRadius } := by
      rw [params, enlargement_center, ← position]
      rfl
    rw [← same]
    refine ⟨?_, similar.relates checked word⟩
    rw [similar.checked_params checked, enlargement_center]

theorem trees_alike_sapling :
    let p := TreeParams.sapling
    p.checked = .ok 0 ∧ p.Fits ['f', 'l'] ∧ (0 : ℝ) < 2 ∧ (∃ a, Asset.build p ['f', 'l'] = .ok a) ∧
      (shift Vec3.up).Relates p { p with position := (0 + Vec3.up : Vec3 ℝ).toList } ['f', 'l'] ∧
      (enlargement 0 2).Relates p
        { p with startRadius := 2 * p.startRadius, branchLength := 2 * p.branchLength, leafRadius := 2 * p.leafRadius }
        ['f', 'l'] := by
  intro p
  have checked : p.checked = .ok 0 := TreeParams.checked_eq_ok.mpr ⟨rfl, TreeParams.usable_sapling⟩
  have fits : p.Fits ['f', 'l'] :=
    ⟨fun _ => by decide, fun _ => by decide, fun _ => by decide⟩
  obtain ⟨grows, shifted, enlarged⟩ := trees_alike p 0 checked ['f', 'l']
  exact ⟨checked, fits, two_pos, grows fits, (shifted Vec3.up).2, (enlarged 2 two_pos).2⟩

end Likeness

end Arbor
