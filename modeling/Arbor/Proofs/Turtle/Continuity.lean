import Arbor.Proofs.Turtle.Growth

namespace Arbor

namespace Gait

variable {α : Type} [Scalar α]

/-- A place and a radius are those at the top of a segment among some events; where no segment is named, they
are those at the start. -/
def StandsOn (g : Gait α) (events : List (Event α)) (segment : Option Nat) (position : Vec3 α) (radius : α) :
    Prop :=
  match segment with
  | none => position = g.position ∧ radius = g.startRadius
  | some k =>
      ∃ s, (segments events)[k]? = some s ∧ s.index = k ∧ position = s.top ∧ radius = s.topRadius

/-- An event carries on from the segments that were placed before it. -/
def Continues (g : Gait α) (earlier : List (Event α)) : Event α → Prop
  | .segment s =>
      s.index = (segments earlier).length ∧ (∀ k, s.parent = some k → k < s.index) ∧
        g.StandsOn earlier s.parent s.base s.baseRadius
  | .leaf l => g.StandsOn earlier l.segment l.position l.radius

/-- What every walk keeps from its start on. -/
structure Unbroken (g : Gait α) (w : Walk α) : Prop where
  placed : w.placed = (segments w.events.toList).length
  poses : ∀ pose ∈ w.turtle.pose :: w.turtle.stack,
    g.StandsOn w.events.toList pose.segment pose.position pose.radius
  events : ∀ i event, w.events.toList[i]? = some event → g.Continues (w.events.toList.take i) event

omit [Scalar α] in
theorem standsOn_append (g : Gait α) {events : List (Event α)} (later : List (Event α))
    {segment : Option Nat} {position : Vec3 α} {radius : α}
    (stands : g.StandsOn events segment position radius) :
    g.StandsOn (events ++ later) segment position radius := by
  cases segment with
  | none => exact stands
  | some k =>
      obtain ⟨s, found, rest⟩ := stands
      refine ⟨s, ?_, rest⟩
      rw [segments_append, List.getElem?_append_left (List.getElem?_eq_some_iff.mp found).1, found]

omit [Scalar α] in
theorem standsOn_lt (g : Gait α) {events : List (Event α)} {segment : Option Nat} {position : Vec3 α} {radius : α}
    (stands : g.StandsOn events segment position radius) :
    ∀ k, segment = some k → k < (segments events).length := by
  rintro k rfl
  obtain ⟨s, found, -⟩ := stands
  exact (List.getElem?_eq_some_iff.mp found).1

omit [Scalar α] in
theorem continues_concat (g : Gait α) {events : List (Event α)} {event : Event α}
    (before : ∀ i e, events[i]? = some e → g.Continues (events.take i) e)
    (last : g.Continues events event) :
    ∀ i e, (events ++ [event])[i]? = some e → g.Continues ((events ++ [event]).take i) e := by
  intro i e found
  rcases Nat.lt_trichotomy i events.length with inside | rfl | outside
  · rw [List.getElem?_append_left inside] at found
    rw [List.take_append_of_le_length (Nat.le_of_lt inside)]
    exact before i e found
  · have same : event = e := by simpa using found
    subst e
    simpa using last
  · have beyond : (events ++ [event]).length ≤ i := by
      rw [List.length_append, List.length_singleton]
      omega
    rw [List.getElem?_eq_none beyond] at found
    cases found

theorem unbroken_start (g : Gait α) : g.Unbroken g.start where
  placed := rfl
  poses := by
    intro pose member
    rcases List.mem_singleton.mp member with rfl
    exact ⟨rfl, rfl⟩
  events := by
    intro i event found
    simp [start] at found

theorem unbroken_forward (g : Gait α) {w : Walk α} (kept : g.Unbroken w) :
    g.Unbroken (g.step w (.scalar 'f')) := by
  have current := kept.poses w.turtle.pose (List.mem_cons_self)
  rw [step_forward]
  refine ⟨?_, ?_, ?_⟩
  · simp [kept.placed]
  · intro pose member
    rw [Array.toList_push]
    rcases List.mem_cons.mp member with rfl | saved
    · refine ⟨g.segment w.turtle w.placed, ?_, rfl, rfl, rfl⟩
      simp [segment, kept.placed]
    · exact g.standsOn_append _ (kept.poses pose (List.mem_cons_of_mem _ saved))
  · rw [Array.toList_push]
    have before := g.standsOn_lt current
    rw [← kept.placed] at before
    exact g.continues_concat kept.events ⟨kept.placed, before, current⟩

theorem unbroken_leaf (g : Gait α) {w : Walk α} (kept : g.Unbroken w) :
    g.Unbroken (g.step w (.scalar 'l')) := by
  rw [step_leaf]
  refine ⟨?_, ?_, ?_⟩
  · simp [kept.placed]
  · intro pose member
    rw [Array.toList_push]
    exact g.standsOn_append _ (kept.poses pose member)
  · rw [Array.toList_push]
    exact g.continues_concat kept.events (kept.poses w.turtle.pose List.mem_cons_self)

theorem unbroken_step (g : Gait α) {w : Walk α} (kept : g.Unbroken w) (p : CodePoint) :
    g.Unbroken (g.step w p) := by
  rcases p.quiet_or with rfl | rfl | rfl | rfl | quiet
  · exact g.unbroken_forward kept
  · exact g.unbroken_leaf kept
  · exact ⟨kept.placed, fun pose member => kept.poses pose (Turtle.mem_of_mem_push member), kept.events⟩
  · exact ⟨kept.placed, fun pose member => kept.poses pose (Turtle.mem_of_mem_pop member), kept.events⟩
  · obtain ⟨turned, passed, step⟩ := g.step_quiet quiet
    rw [step]
    refine ⟨kept.placed, ?_, kept.events⟩
    intro pose member
    rcases List.mem_cons.mp member with rfl | saved
    · exact kept.poses w.turtle.pose List.mem_cons_self
    · exact kept.poses pose (List.mem_cons_of_mem _ saved)

theorem unbroken_resume (g : Gait α) {w : Walk α} (kept : g.Unbroken w) (word : Text) :
    g.Unbroken (g.resume w word) := by
  induction word generalizing w with
  | nil => exact kept
  | cons p word ih => exact ih (g.unbroken_step kept p)

theorem unbroken_walk (g : Gait α) (word : Text) : g.Unbroken (g.walk word) :=
  g.unbroken_resume g.unbroken_start word

theorem standsOn_of_mem_events (g : Gait α) {word : Text} {s : Segment α} (member : .segment s ∈ g.events word) :
    g.StandsOn (g.events word) s.parent s.base s.baseRadius := by
  obtain ⟨i, found⟩ := List.mem_iff_getElem?.mp member
  obtain ⟨-, -, stands⟩ := (g.unbroken_walk word).events i _ found
  have whole := g.standsOn_append ((g.events word).drop i) stands
  rwa [events, List.take_append_drop] at whole

theorem length_segments_events (g : Gait α) (word : Text) :
    (segments (g.events word)).length = word.count (.scalar 'f') :=
  calc
    (segments (g.events word)).length = (g.walk word).placed := (g.unbroken_walk word).placed.symm
    _ = word.count (.scalar 'f') := g.placed_walk word

/-- At every point of a word the turtle and all poses that it remembers stand on what has been placed, and
every event of the word carries on from the events before it. -/
theorem tree_unbroken (g : Gait α) (word : Text) :
    (∀ n, ∀ pose ∈ (g.walk (word.take n)).turtle.pose :: (g.walk (word.take n)).turtle.stack,
        g.StandsOn (g.events (word.take n)) pose.segment pose.position pose.radius) ∧
      ∀ i event, (g.events word)[i]? = some event → g.Continues ((g.events word).take i) event := by
  refine ⟨?_, (g.unbroken_walk word).events⟩
  intro n
  exact (g.unbroken_walk (word.take n)).poses

theorem tree_unbroken_bough :
    (standard : Gait Float).StandsOn (events standard ['f', '[', 'f']) (some 0)
        (walk (standard : Gait Float) ['f']).turtle.pose.position
        (walk (standard : Gait Float) ['f']).turtle.pose.radius ∧
      (events (standard : Gait Float) ['f', '[', 'f', ']', 'l'])[2]? =
        some (.leaf (leaf (walk standard ['f']).turtle)) ∧
      (standard : Gait Float).Continues ((events standard ['f', '[', 'f', ']', 'l']).take 2)
        (.leaf (leaf (walk standard ['f']).turtle)) := by
  have unbroken := tree_unbroken (standard : Gait Float) ['f', '[', 'f', ']', 'l']
  have placed : (events (standard : Gait Float) ['f', '[', 'f', ']', 'l'])[2]? =
      some (.leaf (leaf (walk standard ['f']).turtle)) := rfl
  exact ⟨unbroken.1 3 _ (List.mem_cons_of_mem _ List.mem_cons_self), placed, unbroken.2 2 _ placed⟩

end Gait

end Arbor
