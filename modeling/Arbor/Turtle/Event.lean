import Arbor.Space.Mat3

namespace Arbor

/-- A piece of branch. `parent` is the segment it grows from, `none` at the root; `height` is the branch length as
given, not measured from `base` to `top`. -/
structure Segment (α : Type) where
  index : Nat
  parent : Option Nat
  base : Vec3 α
  top : Vec3 α
  orientation : Mat3 α
  baseRadius : α
  topRadius : α
  depth : Nat
  height : α
  deriving Repr

/-- A leaf, and the segment it grows on. -/
structure Leaf (α : Type) where
  position : Vec3 α
  radius : α
  segment : Option Nat
  deriving Repr

inductive Event (α : Type) where
  | segment (s : Segment α)
  | leaf (l : Leaf α)
  deriving Repr

def Segment.direction {α : Type} [Scalar α] (s : Segment α) : Vec3 α := s.top - s.base

namespace Event

variable {α : Type}

def segment? : Event α → Option (Segment α)
  | segment s => some s
  | leaf _ => none

def leaf? : Event α → Option (Leaf α)
  | segment _ => none
  | leaf l => some l

end Event

def segments {α : Type} (events : List (Event α)) : List (Segment α) := events.filterMap Event.segment?

def leaves {α : Type} (events : List (Event α)) : List (Leaf α) := events.filterMap Event.leaf?

section

variable {α : Type}

@[simp] theorem segments_nil : segments ([] : List (Event α)) = [] := rfl

@[simp] theorem segments_cons_segment (s : Segment α) (events : List (Event α)) :
    segments (.segment s :: events) = s :: segments events := rfl

@[simp] theorem segments_cons_leaf (l : Leaf α) (events : List (Event α)) :
    segments (.leaf l :: events) = segments events := rfl

@[simp] theorem segments_append (first second : List (Event α)) :
    segments (first ++ second) = segments first ++ segments second :=
  List.filterMap_append

theorem mem_segments {events : List (Event α)} {s : Segment α} : s ∈ segments events ↔ .segment s ∈ events := by
  rw [segments, List.mem_filterMap]
  constructor
  · rintro ⟨event, member, same⟩
    cases event <;> cases same
    exact member
  · intro member
    exact ⟨_, member, rfl⟩

end

end Arbor
