import Mathlib.Data.List.Chain
import Mathlib.Logic.Relation
import Arbor.Proofs.Skeleton.Numbering

/-!
# Preorder

A turtle places the segments of a tree depth first. Wherever it stands, and wherever it returns to, is on the way
from the segment placed last down to the root, so the next segment grows somewhere on that way.
-/

namespace Arbor

variable {α : Type}

def Grown (placed : List (Segment α)) (p i : Nat) : Prop :=
  ∃ k s, placed[k]? = some s ∧ p = boneOf s.parent ∧ i = k + 1

/-- A bone and what the way from it down to the root leads over, itself included. -/
def Stem (placed : List (Segment α)) : Nat → Nat → Prop := Relation.ReflTransGen (Grown placed)

theorem grown_append {placed : List (Segment α)} (later : List (Segment α)) {p i : Nat} (grown : Grown placed p i) :
    Grown (placed ++ later) p i := by
  obtain ⟨k, s, found, same⟩ := grown
  refine ⟨k, s, ?_, same⟩
  rw [List.getElem?_append_left (List.getElem?_eq_some_iff.mp found).1, found]

theorem stem_append {placed : List (Segment α)} (later : List (Segment α)) {p i : Nat} (stem : Stem placed p i) :
    Stem (placed ++ later) p i := by
  induction stem with
  | refl => exact .refl
  | tail _ last ih => exact ih.tail (grown_append later last)

namespace Gait

def tips (w : Walk α) : List Nat := w.placed :: (w.turtle.pose :: w.turtle.stack).map fun pose => boneOf pose.segment

/-- What every walk keeps: each bone that it may return to is on the way down from the one before it, and so was
the bone that each segment has grown on. -/
structure DepthFirst (w : Walk α) : Prop where
  tips : (tips w).IsChain fun i p => Stem (segments w.events.toList) p i
  parents : ∀ k s, (segments w.events.toList)[k]? = some s → Stem (segments w.events.toList) (boneOf s.parent) k

theorem depthFirst_still {w v : Walk α} (kept : DepthFirst w)
    (placed : segments v.events.toList = segments w.events.toList) (same : tips v = tips w) : DepthFirst v := by
  refine ⟨?_, ?_⟩
  · rw [same, placed]
    exact kept.tips
  · rw [placed]
    exact kept.parents

variable [Scalar α]

theorem depthFirst_start (g : Gait α) : DepthFirst g.start where
  tips := List.isChain_cons_cons.mpr ⟨.refl, List.isChain_singleton _⟩
  parents := by
    intro k s found
    cases found

theorem depthFirst_forward (g : Gait α) {w : Walk α} (unbroken : g.Unbroken w) (kept : DepthFirst w) :
    DepthFirst (g.step w (.scalar 'f')) := by
  have count := unbroken.placed
  obtain ⟨near, rest⟩ := List.isChain_cons_cons.mp kept.tips
  have placed : segments (g.step w (.scalar 'f')).events.toList =
      segments w.events.toList ++ [g.segment w.turtle w.placed] := by
    rw [step_forward, Array.toList_push, segments_append]
    rfl
  have last : Grown (segments w.events.toList ++ [g.segment w.turtle w.placed]) (boneOf w.turtle.pose.segment)
      (w.placed + 1) := by
    refine ⟨w.placed, g.segment w.turtle w.placed, ?_, rfl, rfl⟩
    rw [count, List.getElem?_concat_length]
  refine ⟨?_, ?_⟩
  · rw [placed]
    refine List.isChain_cons_cons.mpr ⟨.refl, ?_⟩
    change List.IsChain _ ((w.placed + 1) :: w.turtle.stack.map fun pose => boneOf pose.segment)
    cases stack : w.turtle.stack with
    | nil => exact List.isChain_singleton _
    | cons saved others =>
        rw [stack] at rest
        obtain ⟨below, behind⟩ := List.isChain_cons_cons.mp rest
        refine List.isChain_cons_cons.mpr ⟨(stem_append _ below).tail last, ?_⟩
        exact behind.imp fun _ _ => stem_append _
  · rw [placed]
    intro k s found
    rcases Nat.lt_trichotomy k (segments w.events.toList).length with inside | rfl | outside
    · rw [List.getElem?_append_left inside] at found
      exact stem_append _ (kept.parents k s found)
    · rw [List.getElem?_concat_length, Option.some.injEq] at found
      subst found
      rw [← count]
      exact stem_append _ near
    · rw [List.getElem?_eq_none (by rw [List.length_append, List.length_singleton]; omega)] at found
      cases found

theorem depthFirst_step (g : Gait α) {w : Walk α} (unbroken : g.Unbroken w) (kept : DepthFirst w) (p : CodePoint) :
    DepthFirst (g.step w p) := by
  rcases p.quiet_or with rfl | rfl | rfl | rfl | quiet
  · exact g.depthFirst_forward unbroken kept
  · refine depthFirst_still kept ?_ rfl
    rw [step_leaf, Array.toList_push, segments_append]
    exact List.append_nil _
  · obtain ⟨near, rest⟩ := List.isChain_cons_cons.mp kept.tips
    exact ⟨List.isChain_cons_cons.mpr ⟨near, List.isChain_cons_cons.mpr ⟨.refl, rest⟩⟩, kept.parents⟩
  · rw [step_close]
    cases stack : w.turtle.stack with
    | nil =>
        refine depthFirst_still kept rfl ?_
        simp only [tips, Turtle.pop, stack]
    | cons saved others =>
        obtain ⟨near, rest⟩ := List.isChain_cons_cons.mp kept.tips
        rw [stack] at rest
        obtain ⟨below, behind⟩ := List.isChain_cons_cons.mp rest
        refine ⟨?_, kept.parents⟩
        simp only [tips, Turtle.pop, stack]
        exact List.isChain_cons_cons.mpr ⟨below.trans near, behind⟩
  · obtain ⟨turned, passed, step⟩ := g.step_quiet quiet
    rw [step]
    exact depthFirst_still kept rfl rfl

theorem depthFirst_resume (g : Gait α) {w : Walk α} (unbroken : g.Unbroken w) (kept : DepthFirst w) (word : Text) :
    DepthFirst (g.resume w word) := by
  induction word generalizing w with
  | nil => exact kept
  | cons p word ih => exact ih (g.unbroken_step unbroken p) (g.depthFirst_step unbroken kept p)

theorem stem_of_segment (g : Gait α) (word : Text) {k : Nat} {s : Segment α}
    (found : (segments (g.events word))[k]? = some s) : Stem (segments (g.events word)) (boneOf s.parent) k :=
  (g.depthFirst_resume g.unbroken_start g.depthFirst_start word).parents k s found

end Gait

end Arbor
