import Arbor.Proofs.Turtle.Continuity
import Arbor.Skeleton.Rigging

/-!
# Numbering

The segments of a turtle are numbered in the order in which they are placed, and nothing grows on a segment
that is still to come. The bone that an event follows therefore exists as soon as the event is there.
-/

namespace Arbor

variable {α : Type}

/-- The bone that the vertices of an event follow. -/
def Event.owner : Event α → Nat
  | .segment s => s.index + 1
  | .leaf l => boneOf l.segment

/-- Events whose segments are numbered from a count on, each event growing on an earlier segment or on none. -/
def Numbered : Nat → List (Event α) → Prop
  | _, [] => True
  | count, .segment s :: later => s.index = count ∧ boneOf s.parent ≤ count ∧ Numbered (count + 1) later
  | count, .leaf l :: later => boneOf l.segment ≤ count ∧ Numbered count later

theorem owner_lt_of_numbered {count : Nat} {events : List (Event α)} (numbered : Numbered count events) :
    ∀ event ∈ events, event.owner < count + (segments events).length + 1 := by
  induction events generalizing count with
  | nil =>
      intro event member
      cases member
  | cons first later ih =>
      intro event member
      cases first with
      | segment s =>
          obtain ⟨index, -, rest⟩ := numbered
          rw [segments_cons_segment, List.length_cons]
          rcases List.mem_cons.mp member with rfl | inside
          · rw [Event.owner, index]
            omega
          · have bound := ih rest event inside
            omega
      | leaf l =>
          obtain ⟨grown, rest⟩ := numbered
          rw [segments_cons_leaf]
          rcases List.mem_cons.mp member with rfl | inside
          · rw [Event.owner]
            omega
          · exact ih rest event inside

theorem index_of_numbered {count : Nat} {events : List (Event α)} (numbered : Numbered count events) {k : Nat}
    {s : Segment α} (found : (segments events)[k]? = some s) : s.index = count + k := by
  induction events generalizing count k with
  | nil => cases found
  | cons first later ih =>
      cases first with
      | segment first =>
          obtain ⟨index, -, rest⟩ := numbered
          rw [segments_cons_segment] at found
          cases k with
          | zero =>
              cases found
              exact index
          | succ k =>
              have next := ih rest found
              omega
      | leaf l => exact ih numbered.2 found

theorem boneOf_le_of_lt {segment : Option Nat} {count : Nat} (earlier : ∀ k, segment = some k → k < count) :
    boneOf segment ≤ count := by
  cases segment with
  | none => exact Nat.zero_le _
  | some k => exact earlier k rfl

theorem boneOf_eq_zero {segment : Option Nat} : boneOf segment = 0 ↔ segment = none := by
  cases segment <;> simp [boneOf]

theorem boneOf_eq_succ {segment : Option Nat} {k : Nat} : boneOf segment = k + 1 ↔ segment = some k := by
  cases segment <;> simp [boneOf]

namespace Gait

variable [Scalar α]

omit [Scalar α] in
theorem numbered_of_continues (g : Gait α) (earlier : List (Event α)) {later : List (Event α)}
    (unbroken : ∀ i event, later[i]? = some event → g.Continues (earlier ++ later.take i) event) :
    Numbered (segments earlier).length later := by
  induction later generalizing earlier with
  | nil => trivial
  | cons first later ih =>
      have continues : g.Continues earlier first := by
        have here := unbroken 0 first rfl
        rwa [List.take_zero, List.append_nil] at here
      have rest := ih (earlier ++ [first]) fun i event found => by
        rw [List.append_assoc]
        exact unbroken (i + 1) event found
      cases first with
      | segment s =>
          obtain ⟨index, before, -⟩ := continues
          rw [index] at before
          exact ⟨index, boneOf_le_of_lt before, by simpa using rest⟩
      | leaf l =>
          exact ⟨boneOf_le_of_lt (g.standsOn_lt continues), by simpa using rest⟩

theorem numbered_events (g : Gait α) (word : Text) : Numbered 0 (g.events word) :=
  g.numbered_of_continues [] (g.unbroken_walk word).events

end Gait

end Arbor
