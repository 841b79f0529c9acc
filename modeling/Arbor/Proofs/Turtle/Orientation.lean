import Arbor.Proofs.Space.Rotation
import Arbor.Proofs.Turtle.Poses

namespace Arbor

namespace Axis

theorem rotation_heading (degrees : ℝ) : heading.rotation degrees = .aboutX (Scalar.radians degrees) := rfl

theorem rotation_left (degrees : ℝ) : left.rotation degrees = (Mat3.aboutY (Scalar.radians degrees)).transpose := rfl

theorem rotation_up (degrees : ℝ) : up.rotation degrees = (Mat3.aboutZ (Scalar.radians degrees)).transpose := rfl

theorem isRotation_rotation (axis : Axis) (degrees : ℝ) : (axis.rotation degrees).IsRotation := by
  cases axis with
  | heading =>
      rw [rotation_heading]
      exact Mat3.isRotation_aboutX _
  | left =>
      rw [rotation_left]
      exact Mat3.isRotation_transpose (Mat3.isRotation_aboutY _)
  | up =>
      rw [rotation_up]
      exact Mat3.isRotation_transpose (Mat3.isRotation_aboutZ _)

theorem rotation_neg (axis : Axis) (degrees : ℝ) : axis.rotation (-degrees) = (axis.rotation degrees).transpose := by
  have radians : (Scalar.radians (-degrees) : ℝ) = -Scalar.radians degrees := neg_mul degrees _
  have cosine : (Scalar.cos (-Scalar.radians degrees) : ℝ) = Scalar.cos (Scalar.radians degrees) := Real.cos_neg _
  have sine : (Scalar.sin (-Scalar.radians degrees) : ℝ) = -Scalar.sin (Scalar.radians degrees) := Real.sin_neg _
  cases axis <;> simp [rotation, Mat3.transpose, radians, cosine, sine]

end Axis

namespace CodePoint

def turns : Text := ['+', '-', '^', 'v', '<', '>']

def opposite : CodePoint → CodePoint
  | .scalar '+' => .scalar '-'
  | .scalar '-' => .scalar '+'
  | .scalar '^' => .scalar 'v'
  | .scalar 'v' => .scalar '^'
  | .scalar '<' => .scalar '>'
  | .scalar '>' => .scalar '<'
  | p => p

theorem rotation?_opposite {p : CodePoint} (turn : p ∈ turns) :
    ∃ axis reversed, (Symbol.ofCodePoint p).rotation? = some (axis, reversed) ∧
      (Symbol.ofCodePoint p.opposite).rotation? = some (axis, !reversed) := by
  simp only [turns, List.mem_cons, List.not_mem_nil, or_false] at turn
  rcases turn with rfl | rfl | rfl | rfl | rfl | rfl
  · exact ⟨.up, false, rfl, rfl⟩
  · exact ⟨.up, true, rfl, rfl⟩
  · exact ⟨.left, false, rfl, rfl⟩
  · exact ⟨.left, true, rfl, rfl⟩
  · exact ⟨.heading, true, rfl, rfl⟩
  · exact ⟨.heading, false, rfl, rfl⟩

end CodePoint

def Text.undone (word : Text) : Text := (word.map CodePoint.opposite).reverse

theorem Text.undone_cons (p : CodePoint) (word : Text) : undone (p :: word) = word.undone ++ [p.opposite] := by
  simp [undone]

namespace Gait

/-- Wherever the turtle stands, and wherever it may return to, its frame is a rotation. -/
def Framed (w : Walk ℝ) : Prop := ∀ pose ∈ w.turtle.pose :: w.turtle.stack, pose.orientation.IsRotation

theorem isRotation_turn (g : Gait ℝ) (axis : Axis) (reversed : Bool) : (g.turn axis reversed).IsRotation :=
  axis.isRotation_rotation _

theorem framed_walk (g : Gait ℝ) (word : Text) : Framed (g.walk word) := by
  refine everywhere_walk ⟨?_, ?_⟩ Mat3.isRotation_identity word
  · intro t index rotation
    exact rotation
  · intro t axis reversed rotation
    exact Mat3.isRotation_mul rotation (g.isRotation_turn axis reversed)

theorem norm_of_framed (g : Gait ℝ) {w : Walk ℝ} (kept : Framed w) (forward : 0 ≤ g.length) :
    ((g.segment w.turtle w.placed).top - (g.segment w.turtle w.placed).base).norm = g.length := by
  have rotation := kept w.turtle.pose List.mem_cons_self
  simp only [segment]
  rw [Vec3.add_sub_cancel_left, Mat3.norm_apply rotation, Vec3.norm_scale_up forward]

theorem turn_back (g : Gait ℝ) (axis : Axis) (reversed : Bool) :
    g.turn axis reversed * g.turn axis (!reversed) = .identity := by
  have back : g.turn axis (!reversed) = (g.turn axis reversed).transpose := by
    cases reversed with
    | false => exact axis.rotation_neg g.angle
    | true =>
        have forth := axis.rotation_neg (-g.angle)
        rwa [neg_neg] at forth
  rw [back]
  exact (Mat3.isRotation_iff.mp (g.isRotation_turn axis reversed)).1

theorem turtle_undone (g : Gait ℝ) (w : Walk ℝ) {word : Text} (turns : ∀ p ∈ word, p ∈ CodePoint.turns) :
    (g.resume w (word ++ word.undone)).turtle = w.turtle := by
  induction word generalizing w with
  | nil => rfl
  | cons p word ih =>
      obtain ⟨axis, reversed, turn, back⟩ := CodePoint.rotation?_opposite (turns p List.mem_cons_self)
      have inner := ih (g.step w p) fun q member => turns q (List.mem_cons_of_mem _ member)
      rw [Text.undone_cons, ← List.append_assoc, resume_append, List.cons_append, resume_cons, resume_cons, resume_nil,
        g.step_of_rotation? _ back, inner, g.step_of_rotation? w turn]
      simp only [Turtle.turn, Mat3.mul_assoc, turn_back, Mat3.mul_identity]

/-- In exact arithmetic the frame of a turtle is a rotation at every point of a word, and so is every frame that it
remembers and the frame of every segment; no segment is longer or shorter than the gait says. A word of turns, followed
by the opposite turns in opposite order, leaves the turtle as it was. -/
theorem frame_stays_rotation :
    (∀ (g : Gait ℝ) (word : Text),
      (∀ n, ∀ pose ∈ (g.walk (word.take n)).turtle.pose :: (g.walk (word.take n)).turtle.stack,
        pose.orientation * pose.orientation.transpose = .identity ∧ pose.orientation.toMatrix.det = 1) ∧
      ∀ s, .segment s ∈ g.events word →
        s.orientation * s.orientation.transpose = .identity ∧ s.orientation.toMatrix.det = 1 ∧
          (0 ≤ g.length → (s.top - s.base).norm = g.length)) ∧
    ∀ (g : Gait ℝ) (w : Walk ℝ) (word : Text), (∀ p ∈ word, p ∈ CodePoint.turns) →
      (g.resume w (word ++ word.undone)).turtle = w.turtle := by
  refine ⟨fun g word => ⟨?_, ?_⟩, fun g w word turns => g.turtle_undone w turns⟩
  · intro n pose member
    exact Mat3.isRotation_iff.mp (g.framed_walk (word.take n) pose member)
  · intro s member
    obtain ⟨k, rfl⟩ := g.exists_turtle_of_mem_events member
    have kept := g.framed_walk (word.take k)
    obtain ⟨orthogonal, proper⟩ := Mat3.isRotation_iff.mp (kept _ List.mem_cons_self)
    exact ⟨orthogonal, proper, g.norm_of_framed kept⟩

theorem frame_stays_rotation_bough :
    (∃ s, .segment s ∈ events (standard : Gait ℝ) ['+', '[', '<', 'f'] ∧ 0 ≤ (standard : Gait ℝ).length ∧
      s.orientation.toMatrix.det = 1 ∧ (s.top - s.base).norm = (standard : Gait ℝ).length) ∧
    (∃ pose ∈ (walk (standard : Gait ℝ) ['+', '[', '<']).turtle.stack,
      pose.orientation * pose.orientation.transpose = .identity) ∧
    (∀ p ∈ ([.scalar '+', .scalar 'v', .scalar '<'] : Text), p ∈ CodePoint.turns) ∧
      (walk (standard : Gait ℝ) ['f', '+', 'v', '<', '>', '^', '-']).turtle = (walk standard ['f']).turtle := by
  obtain ⟨frames, back⟩ := frame_stays_rotation
  obtain ⟨poses, placed⟩ := frames standard ['+', '[', '<', 'f']
  have forward : 0 ≤ (standard : Gait ℝ).length := zero_le_one
  have turns : ∀ p ∈ ([.scalar '+', .scalar 'v', .scalar '<'] : Text), p ∈ CodePoint.turns := by decide
  refine ⟨?_, ?_, turns, back standard (walk standard ['f']) _ turns⟩
  · obtain ⟨-, proper, long⟩ := placed _ List.mem_cons_self
    exact ⟨_, List.mem_cons_self, forward, proper, long forward⟩
  · exact ⟨_, List.mem_cons_self, (poses 3 _ (List.mem_cons_of_mem _ List.mem_cons_self)).1⟩

end Gait

end Arbor
