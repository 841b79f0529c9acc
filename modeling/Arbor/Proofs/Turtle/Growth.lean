import Arbor.Turtle.Walk

namespace Arbor

namespace Gait

variable {α : Type} [Scalar α]

def growth (g : Gait α) : Walk α → Text → List (Event α)
  | _, [] => []
  | w, p :: word => (g.placement? w (Symbol.ofCodePoint p)).toList ++ growth g (g.step w p) word

theorem events_step (g : Gait α) (w : Walk α) (p : CodePoint) :
    (g.step w p).events.toList =
      w.events.toList ++ (g.placement? w (Symbol.ofCodePoint p)).toList := by
  rcases p.quiet_or with rfl | rfl | rfl | rfl | quiet
  · simp [placement?, Symbol.ofCodePoint]
  · simp [placement?, Symbol.ofCodePoint]
  · simp [placement?, Symbol.ofCodePoint]
  · simp [placement?, Symbol.ofCodePoint]
  · obtain ⟨turned, passed, step⟩ := g.step_quiet quiet
    rw [step, g.placement?_quiet w quiet, Option.toList_none, List.append_nil]

theorem events_resume (g : Gait α) (w : Walk α) (word : Text) :
    (g.resume w word).events.toList = w.events.toList ++ g.growth w word := by
  induction word generalizing w with
  | nil => simp [growth]
  | cons p word ih => simp [growth, ih, events_step]

theorem growth_append (g : Gait α) (w : Walk α) (first second : Text) :
    g.growth w (first ++ second) = g.growth w first ++ g.growth (g.resume w first) second := by
  induction first generalizing w with
  | nil => simp [growth]
  | cons p first ih => simp [growth, ih]

theorem walk_append (g : Gait α) (first second : Text) :
    g.walk (first ++ second) = g.resume (g.walk first) second := by
  simp [walk]

theorem events_append (g : Gait α) (first second : Text) :
    g.events (first ++ second) = g.events first ++ g.growth (g.walk first) second := by
  rw [events, walk_append, events_resume, events]

theorem length_placement? (g : Gait α) (w : Walk α) (p : CodePoint) :
    (g.placement? w (Symbol.ofCodePoint p)).toList.length =
      (if p = .scalar 'f' then 1 else 0) + if p = .scalar 'l' then 1 else 0 := by
  rcases p.quiet_or with rfl | rfl | rfl | rfl | quiet
  · rfl
  · rfl
  · rfl
  · rfl
  · rw [g.placement?_quiet w quiet, if_neg quiet.1, if_neg quiet.2.1]
    rfl

theorem length_growth (g : Gait α) (w : Walk α) (word : Text) :
    (g.growth w word).length = word.count (.scalar 'f') + word.count (.scalar 'l') := by
  induction word generalizing w with
  | nil => rfl
  | cons p word ih =>
      simp only [growth, List.length_append, length_placement?, ih, List.count_cons, beq_iff_eq]
      omega

theorem length_events (g : Gait α) (word : Text) :
    (g.events word).length = word.count (.scalar 'f') + word.count (.scalar 'l') := by
  have placed := g.events_append [] word
  rw [List.nil_append] at placed
  rw [placed, List.length_append, length_growth]
  simp [events, walk, start]

theorem exists_of_mem_growth (g : Gait α) (w : Walk α) {word : Text} {event : Event α}
    (member : event ∈ g.growth w word) :
    ∃ k p, word[k]? = some p ∧ g.placement? (g.resume w (word.take k)) (Symbol.ofCodePoint p) = some event := by
  induction word generalizing w with
  | nil => cases member
  | cons p word ih =>
      rcases List.mem_append.mp member with here | later
      · exact ⟨0, p, rfl, Option.mem_toList.mp here⟩
      · obtain ⟨k, q, read, placed⟩ := ih (g.step w p) later
        exact ⟨k + 1, q, read, placed⟩

theorem eq_segment_of_placement? (g : Gait α) {w : Walk α} {p : CodePoint} {s : Segment α}
    (placed : g.placement? w (Symbol.ofCodePoint p) = some (.segment s)) :
    p = .scalar 'f' ∧ s = g.segment w.turtle w.placed := by
  rcases p.quiet_or with rfl | rfl | rfl | rfl | quiet
  · cases placed
    exact ⟨rfl, rfl⟩
  · cases placed
  · cases placed
  · cases placed
  · rw [g.placement?_quiet w quiet] at placed
    cases placed

theorem exists_forward_of_mem_events (g : Gait α) {word : Text} {s : Segment α} (member : .segment s ∈ g.events word) :
    ∃ k, word[k]? = some (.scalar 'f') ∧
      s = g.segment (g.walk (word.take k)).turtle (g.walk (word.take k)).placed := by
  have placed := g.events_append [] word
  rw [List.nil_append] at placed
  rw [placed] at member
  obtain ⟨k, p, read, here⟩ := g.exists_of_mem_growth (g.walk []) member
  obtain ⟨rfl, same⟩ := g.eq_segment_of_placement? here
  exact ⟨k, read, same⟩

theorem exists_turtle_of_mem_events (g : Gait α) {word : Text} {s : Segment α} (member : .segment s ∈ g.events word) :
    ∃ k, s = g.segment (g.walk (word.take k)).turtle (g.walk (word.take k)).placed := by
  obtain ⟨k, -, same⟩ := g.exists_forward_of_mem_events member
  exact ⟨k, same⟩

theorem height_of_mem_events (g : Gait α) {word : Text} {s : Segment α} (member : .segment s ∈ g.events word) :
    s.height = g.length := by
  obtain ⟨k, rfl⟩ := g.exists_turtle_of_mem_events member
  rfl

theorem placed_step (g : Gait α) (w : Walk α) (p : CodePoint) :
    (g.step w p).placed = w.placed + if p = .scalar 'f' then 1 else 0 := by
  rcases p.quiet_or with rfl | rfl | rfl | rfl | quiet
  · rfl
  · rfl
  · rfl
  · rfl
  · obtain ⟨turned, passed, step⟩ := g.step_quiet quiet
    rw [step, if_neg quiet.1]
    rfl

theorem placed_resume (g : Gait α) (w : Walk α) (word : Text) :
    (g.resume w word).placed = w.placed + word.count (.scalar 'f') := by
  induction word generalizing w with
  | nil => rfl
  | cons p word ih =>
      simp only [resume_cons, ih, placed_step, List.count_cons, beq_iff_eq]
      omega

theorem placed_walk (g : Gait α) (word : Text) : (g.walk word).placed = word.count (.scalar 'f') := by
  have placed := g.placed_resume g.start word
  rwa [show g.start.placed = 0 from rfl, Nat.zero_add] at placed

/-- What the code point at a place leaves behind, among the events of the whole word. -/
theorem event_at (g : Gait α) {word : Text} {k : Nat} {p : CodePoint} {event : Event α}
    (read : word[k]? = some p)
    (placed : g.placement? (g.walk (word.take k)) (Symbol.ofCodePoint p) = some event) :
    (g.events word)[(word.take k).count (.scalar 'f') + (word.take k).count (.scalar 'l')]? =
      some event := by
  have rest : word.drop k = p :: word.drop (k + 1) := by
    rw [List.drop_eq_getElem?_toList_append, read]
    rfl
  have parts := g.events_append (word.take k) (word.drop k)
  rw [List.take_append_drop, rest, growth, placed] at parts
  rw [parts, ← g.length_events (word.take k), List.getElem?_append_right (Nat.le_refl _)]
  simp

theorem walk_take_succ (g : Gait α) {word : Text} {i : Nat} {p : CodePoint} (read : word[i]? = some p) :
    g.walk (word.take (i + 1)) = g.step (g.walk (word.take i)) p := by
  rw [List.take_add_one, read, walk_append]
  rfl

end Gait

end Arbor
