import Arbor.Proofs.Space.Exact
import Arbor.Proofs.Turtle.Growth

/-!
# Poses

What holds of the pose that a turtle starts with, and goes over to every pose that a segment or a turn leads to, holds
of every pose that it ever has or remembers. So a branch that narrows by a factor never becomes a line.
-/

namespace Arbor

namespace Gait

section Everywhere

variable {α : Type} [Scalar α]

/-- What holds where the turtle stands and wherever it may return to. -/
def Everywhere (holds : Pose α → Prop) (w : Walk α) : Prop := ∀ pose ∈ w.turtle.pose :: w.turtle.stack, holds pose

/-- What segments and turns of a gait carry from pose to pose. -/
structure Carries (g : Gait α) (holds : Pose α → Prop) : Prop where
  climb : ∀ t index, holds t.pose → holds (climb t (g.segment t index)).pose
  turn : ∀ (t : Turtle α) axis reversed, holds t.pose → holds (t.turn (g.turn axis reversed)).pose

variable {g : Gait α} {holds : Pose α → Prop} {w : Walk α}

theorem everywhere_step (carries : g.Carries holds) (kept : Everywhere holds w) (p : CodePoint) :
    Everywhere holds (g.step w p) := by
  have here := kept w.turtle.pose List.mem_cons_self
  rcases p.quiet_or with rfl | rfl | rfl | rfl | quiet
  · intro pose member
    rcases List.mem_cons.mp member with rfl | saved
    · exact carries.climb w.turtle w.placed here
    · exact kept pose (List.mem_cons_of_mem _ saved)
  · exact kept
  · exact fun pose member => kept pose (Turtle.mem_of_mem_push member)
  · exact fun pose member => kept pose (Turtle.mem_of_mem_pop member)
  · rcases g.step_turns_or_passes quiet with ⟨axis, reversed, turns⟩ | passes
    · rw [turns]
      intro pose member
      rcases List.mem_cons.mp member with rfl | saved
      · exact carries.turn w.turtle axis reversed here
      · exact kept pose (List.mem_cons_of_mem _ saved)
    · rw [passes]
      exact kept

theorem everywhere_resume (carries : g.Carries holds) (kept : Everywhere holds w) (word : Text) :
    Everywhere holds (g.resume w word) := by
  induction word generalizing w with
  | nil => exact kept
  | cons p word ih => exact ih (everywhere_step carries kept p)

theorem everywhere_walk (carries : g.Carries holds) (starts : holds g.start.turtle.pose) (word : Text) :
    Everywhere holds (g.walk word) := by
  refine everywhere_resume carries ?_ word
  intro pose member
  rcases List.mem_singleton.mp member with rfl
  exact starts

end Everywhere

theorem thick_walk {g : Gait ℝ} (start : 0 < g.startRadius) (reduction : 0 < g.reduction) (word : Text) :
    Everywhere (fun pose => 0 < pose.radius) (g.walk word) := by
  refine everywhere_walk ⟨?_, ?_⟩ start word
  · intro t index thick
    exact mul_pos thick reduction
  · intro t axis reversed thick
    exact thick

theorem thick_of_mem_events {g : Gait ℝ} (start : 0 < g.startRadius) (reduction : 0 < g.reduction) {word : Text}
    {s : Segment ℝ} (member : .segment s ∈ g.events word) : 0 < s.baseRadius ∧ 0 < s.topRadius := by
  obtain ⟨k, rfl⟩ := g.exists_turtle_of_mem_events member
  have thick := thick_walk start reduction (word.take k) _ List.mem_cons_self
  exact ⟨thick, mul_pos thick reduction⟩

end Gait

end Arbor
