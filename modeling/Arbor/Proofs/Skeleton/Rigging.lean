import Mathlib.Algebra.Group.Int.Defs
import Mathlib.Algebra.Group.Nat.Defs
import Arbor.Proofs.Outcome
import Arbor.Proofs.Skeleton.Numbering

/-!
# Rigging

Along numbered events a rig stops where the geometry of an event does, or at the first one whose bone has a number that
the column of bones cannot hold. Behind them it holds one bone for each segment, every bone at the place of its number
and behind its parent.
-/

namespace Arbor

theorem Format.storeWhole_signed {α : Type} [Scalar α] (n : Int) :
    (Format.signed.storeWhole n : Except (Fault α) (Item α)) =
      if -2 ^ 31 ≤ n ∧ n < 2 ^ 31 then .ok (.whole n) else .error .notStorable := by
  have bounds : Format.signed.bounds? = some (-2147483648, 2147483647) := rfl
  simp only [Format.storeWhole, bounds]
  refine if_congr ?_ rfl rfl
  omega

namespace Rig

variable {α : Type} [Scalar α]

/-- The bones among which an event has been given its bone. -/
def sprouted (bones : Array (Bone α)) : Event α → Array (Bone α)
  | .segment s =>
      (bones.modify (boneOf s.parent) fun b => { b with children := b.children ++ [(bones.size : Int)] }).push
        (bone s bones.size)
  | .leaf _ => bones

theorem size_sprouted_segment (bones : Array (Bone α)) (s : Segment α) :
    (sprouted bones (.segment s)).size = bones.size + 1 := by
  simp [sprouted]

def bound (c : Chunk α) (bone : Nat) : Chunk α :=
  (c.withAttribute "skin_index" ⟨.signed, [], List.replicate c.vertexCount (.whole bone)⟩).withAttribute "skin_weight"
    (.constant c.vertexCount 1)

theorem filled_whole (f : Format) (count : Nat) (n : Int) :
    Column.filled f count (.int n : Value α) = do
      return ⟨.stored f, [], List.replicate count (← f.storeWhole n)⟩ := by
  cases count <;> cases f <;> rfl

theorem tie_eq (c : Chunk α) (bone : Nat) :
    tie c bone = if bone < 2 ^ 31 then .ok (bound c bone) else .error .notStorable := by
  have fits : (-2 ^ 31 ≤ (bone : Int) ∧ (bone : Int) < 2 ^ 31) ↔ bone < 2 ^ 31 := by omega
  rw [tie, filled_whole, Format.storeWhole_signed]
  by_cases small : bone < 2 ^ 31
  · rw [if_pos (fits.mpr small), if_pos small]
    rfl
  · rw [if_neg (mt fits.mp small), if_neg small]
    rfl

theorem tie_eq_ok {c tied : Chunk α} {bone : Nat} (run : tie c bone = .ok tied) :
    bone < 2 ^ 31 ∧ tied = bound c bone := by
  rw [tie_eq] at run
  by_cases small : bone < 2 ^ 31
  · rw [if_pos small] at run
    cases run
    exact ⟨small, rfl⟩
  · rw [if_neg small] at run
    cases run

def dress (a : Assembler α) (event : Event α) : Except (Fault α) (Chunk α) := do
  tie (← a.chunk event) event.owner

/-- One event: its bone and its chunk, unless there is no geometry for it or no number for its bone. -/
theorem step_of_numbered (a : Assembler α) {count : Nat} {event : Event α} {later : List (Event α)}
    (numbered : Numbered count (event :: later)) {r : Rig α} (full : r.bones.size = count + 1) :
    Rig.step a r event = do
      let c ← dress a event
      return ⟨sprouted r.bones event, r.chunks.push c⟩ := by
  cases event with
  | segment s =>
      obtain ⟨index, grown, -⟩ := numbered
      subst index
      have parent : boneOf s.parent < r.bones.size := by omega
      simp only [Rig.step, grow, if_pos parent, Outcome.ok_bind, dress, Assembler.chunk, Event.owner, ← full, bind_assoc]
      rfl
  | leaf l =>
      simp only [Rig.step, dress, Assembler.chunk, Event.owner, bind_assoc]
      rfl

theorem numbered_tail {count : Nat} {event : Event α} {later : List (Event α)}
    (numbered : Numbered count (event :: later)) {bones : Array (Bone α)} (full : bones.size = count + 1) :
    ∃ next, Numbered next later ∧ (sprouted bones event).size = next + 1 := by
  cases event with
  | segment s =>
      refine ⟨count + 1, numbered.2.2, ?_⟩
      rw [size_sprouted_segment, full]
  | leaf l => exact ⟨count, numbered.2, full⟩

theorem foldlM_step (a : Assembler α) {count : Nat} {events : List (Event α)} (numbered : Numbered count events)
    (r : Rig α) (full : r.bones.size = count + 1) :
    events.foldlM (Rig.step a) r = do
      let chunks ← events.mapM (dress a)
      return ⟨events.foldl sprouted r.bones, r.chunks ++ chunks⟩ := by
  induction events generalizing count r with
  | nil => simp
  | cons event later ih =>
      -- A segment brings one bone and moves the count by one, so bones and count stay in step.
      obtain ⟨next, rest, size⟩ := numbered_tail numbered full
      rw [List.foldlM_cons, List.mapM_cons, step_of_numbered a numbered full]
      cases dress a event with
      | error fault => rfl
      | ok c =>
          have tail := ih rest ⟨sprouted r.bones event, r.chunks.push c⟩ size
          simp only [Outcome.ok_bind, Outcome.pure_eq, tail]
          cases later.mapM (dress a) with
          | error fault => rfl
          | ok chunks => simp

/-- Events whose bones have numbers that a column of bones can hold. -/
def Storable (events : List (Event α)) : Prop := ∀ event ∈ events, event.owner < 2 ^ 31

def dressed (events : List (Event α)) (chunks : List (Chunk α)) : List (Chunk α) :=
  List.zipWith (fun event c => bound c event.owner) events chunks

theorem mapM_dress_of_storable (a : Assembler α) {events : List (Event α)} (storable : Storable events) :
    events.mapM (dress a) = (events.mapM a.chunk).map (dressed events) := by
  induction events with
  | nil => rfl
  | cons event later ih =>
      obtain ⟨small, rest⟩ := List.forall_mem_cons.mp storable
      rw [List.mapM_cons, List.mapM_cons, dress, ih rest]
      cases a.chunk event with
      | error fault => rfl
      | ok c =>
          rw [Outcome.ok_bind, Outcome.ok_bind, tie_eq, if_pos small]
          cases later.mapM a.chunk <;> rfl

theorem dressed_of_mapM {a : Assembler α} {events : List (Event α)} {chunks : List (Chunk α)}
    (made : events.mapM (dress a) = .ok chunks) :
    Storable events ∧ ∃ plain, events.mapM a.chunk = .ok plain ∧ chunks = dressed events plain := by
  have storable : Storable events := by
    intro event member
    obtain ⟨i, here⟩ := List.mem_iff_getElem?.mp member
    obtain ⟨c, own, -⟩ := Outcome.getElem?_of_mapM made here
    obtain ⟨plain, -, tied⟩ := Outcome.bind_eq_ok own
    exact (tie_eq_ok tied).1
  rw [mapM_dress_of_storable a storable] at made
  cases drawn : events.mapM a.chunk with
  | error fault =>
      rw [drawn] at made
      cases made
  | ok plain =>
      rw [drawn] at made
      cases made
      exact ⟨storable, plain, rfl, rfl⟩

theorem mapM_dress_of_overfull {a : Assembler α} {events : List (Event α)} {chunks : List (Chunk α)}
    (made : events.mapM a.chunk = .ok chunks) (overfull : ¬ Storable events) :
    events.mapM (dress a) = .error .notStorable := by
  induction events generalizing chunks with
  | nil => exact absurd (fun event member => nomatch member) overfull
  | cons event later ih =>
      rw [List.mapM_cons] at made ⊢
      obtain ⟨c, drawn, made⟩ := Outcome.bind_eq_ok made
      obtain ⟨rest, others, -⟩ := Outcome.bind_eq_ok made
      rw [dress, drawn, Outcome.ok_bind, tie_eq]
      by_cases small : event.owner < 2 ^ 31
      · rw [if_pos small, Outcome.ok_bind, ih others fun fits => overfull (List.forall_mem_cons.mpr ⟨small, fits⟩)]
        rfl
      · rw [if_neg small]
        rfl

omit [Scalar α] in
theorem storable_iff {events : List (Event α)} (numbered : Numbered 0 events) :
    Storable events ↔ (segments events).length < 2 ^ 31 := by
  constructor
  · intro storable
    by_cases drawn : (segments events).length = 0
    · omega
    · have last : (segments events).length - 1 < (segments events).length := by omega
      have found := List.getElem?_eq_getElem last
      have index := index_of_numbered numbered found
      have small : _ + 1 < 2 ^ 31 := storable _ (mem_segments.mp (List.mem_of_getElem? found))
      omega
  · intro few event member
    have bound := owner_lt_of_numbered numbered event member
    omega

def Ordered (bones : Array (Bone α)) : Prop :=
  ∀ (i : Nat) (b : Bone α), bones[i]? = some b → b.index = i ∧ b.parent < i

omit [Scalar α] in
theorem ordered_modify {bones : Array (Bone α)} (ordered : Ordered bones) (place : Nat)
    (children : List Int → List Int) :
    Ordered (bones.modify place fun b => { b with children := children b.children }) := by
  intro i b found
  rw [Array.getElem?_modify] at found
  by_cases same : place = i
  · rw [if_pos same] at found
    obtain ⟨old, present, rfl⟩ := Option.map_eq_some_iff.mp found
    exact ordered i old present
  · rw [if_neg same] at found
    exact ordered i b found

omit [Scalar α] in
theorem ordered_push {bones : Array (Bone α)} (ordered : Ordered bones) {b : Bone α} (index : b.index = bones.size)
    (parent : b.parent < bones.size) : Ordered (bones.push b) := by
  intro i other found
  rw [Array.getElem?_push] at found
  by_cases last : i = bones.size
  · rw [if_pos last] at found
    cases found
    subst i
    exact ⟨index, parent⟩
  · rw [if_neg last] at found
    exact ordered i other found

theorem ordered_start (position : Vec3 α) : Ordered (start position).bones := by
  have empty : Ordered (#[] : Array (Bone α)) := by
    intro i b found
    cases found
  exact ordered_push empty rfl (by change (-1 : Int) < 0; decide)

theorem ordered_sprouted_segment {bones : Array (Bone α)} (ordered : Ordered bones) {s : Segment α}
    (before : boneOf s.parent < bones.size) : Ordered (sprouted bones (.segment s)) := by
  apply ordered_push
  · exact ordered_modify ordered _ (fun children => children ++ [(bones.size : Int)])
  · simp [bone]
  · simp only [bone, Array.size_modify]
    omega

theorem ordered_sprouted {count : Nat} {event : Event α} {later : List (Event α)}
    (numbered : Numbered count (event :: later)) {bones : Array (Bone α)} (full : bones.size = count + 1)
    (ordered : Ordered bones) : Ordered (sprouted bones event) := by
  cases event with
  | segment s =>
      have grown := numbered.2.1
      exact ordered_sprouted_segment ordered (by omega)
  | leaf l => exact ordered

theorem ordered_foldl {count : Nat} {events : List (Event α)} (numbered : Numbered count events)
    {bones : Array (Bone α)} (full : bones.size = count + 1) (ordered : Ordered bones) :
    Ordered (events.foldl sprouted bones) := by
  induction events generalizing count bones with
  | nil => exact ordered
  | cons event later ih =>
      obtain ⟨next, rest, size⟩ := numbered_tail numbered full
      exact ih rest size (ordered_sprouted numbered full ordered)

theorem size_foldl (events : List (Event α)) (bones : Array (Bone α)) :
    (events.foldl sprouted bones).size = bones.size + (segments events).length := by
  induction events generalizing bones with
  | nil => rfl
  | cons event later ih =>
      rw [List.foldl_cons, ih]
      cases event with
      | segment s =>
          rw [size_sprouted_segment, segments_cons_segment, List.length_cons]
          omega
      | leaf l => rfl

omit [Scalar α] in
theorem ofBones_of_ordered {bones : Array (Bone α)} (ordered : Ordered bones) :
    ∃ skeleton, Skeleton.ofBones bones = .ok skeleton ∧ skeleton.bones = bones := by
  unfold Skeleton.ofBones
  split
  · rename_i b found
    have late := List.find?_some found
    have member := List.mem_of_find?_eq_some found
    obtain ⟨i, present⟩ := List.mem_iff_getElem?.mp member
    rw [Array.getElem?_toList] at present
    obtain ⟨index, parent⟩ := ordered i b present
    simp only [decide_eq_true_eq] at late
    omega
  · exact ⟨_, rfl, rfl⟩

end Rig

end Arbor
