import Arbor.Proofs.Turtle.Growth
import Arbor.Proofs.Turtle.Level

/-!
# Suspension

A walk that is suspended at an event has read its word up to the code point that places the event, so the turtle is
where a walk along that part of the word leaves it. What a turtle walked before, to the end or not, leaves no trace.
-/

namespace Arbor

namespace Text

/-- The code point at place `i` of a word places its event `k`: so many segments and leaves come before. -/
def Places (word : Text) (k i : Nat) : Prop :=
  (word[i]? = some (.scalar 'f') ∨ word[i]? = some (.scalar 'l')) ∧
    (word.take i).count (.scalar 'f') + (word.take i).count (.scalar 'l') = k

theorem Places.not_lt {word : Text} {k i j : Nat} (first : word.Places k i) (second : word.Places k j) : ¬ i < j := by
  intro before
  have inside : (word.take (i + 1)).Sublist (word.take j) := List.take_sublist_take_left before
  have segments := inside.count_le (.scalar 'f')
  have leaves := inside.count_le (.scalar 'l')
  obtain ⟨read, sum⟩ := first
  obtain ⟨-, total⟩ := second
  rcases read with read | read
  · rw [count_take_succ read, if_pos rfl] at segments
    rw [count_take_succ read] at leaves
    omega
  · rw [count_take_succ read] at segments
    rw [count_take_succ read, if_pos rfl] at leaves
    omega

theorem Places.unique {word : Text} {k i j : Nat} (first : word.Places k i) (second : word.Places k j) : i = j := by
  have forth := first.not_lt second
  have back := second.not_lt first
  omega

end Text

namespace Gait

variable {α : Type} [Scalar α]

/-- Where a turtle stands after some words, each of them walked to its end or until some events were drawn. -/
def left (g : Gait α) (runs : List (Option Nat × Text)) : Option (Turtle α) :=
  runs.foldl (fun last run => (g.draw last run.1 run.2).2) none

theorem read_of_placement? (g : Gait α) {w : Walk α} {p : CodePoint} {event : Event α}
    (placed : g.placement? w (Symbol.ofCodePoint p) = some event) : p = .scalar 'f' ∨ p = .scalar 'l' := by
  rcases p.quiet_or with rfl | rfl | rfl | rfl | quiet
  · exact .inl rfl
  · exact .inr rfl
  · cases placed
  · cases placed
  · rw [g.placement?_quiet w quiet] at placed
    cases placed

theorem size_step (g : Gait α) (w : Walk α) (p : CodePoint) :
    (g.step w p).events.size = w.events.size + (g.placement? w (Symbol.ofCodePoint p)).toList.length := by
  rw [← Array.length_toList, events_step, List.length_append, Array.length_toList]

theorem suspend_of_still (g : Gait α) {w : Walk α} {p : CodePoint}
    (placed : g.placement? w (Symbol.ofCodePoint p) = none) (count : Nat) (word : Text) :
    g.suspend count w (p :: word) = g.suspend count (g.step w p) word := by
  rw [suspend, placed]

theorem suspend_of_placing (g : Gait α) {w : Walk α} {p : CodePoint} {event : Event α}
    (placed : g.placement? w (Symbol.ofCodePoint p) = some event) (count : Nat) (word : Text) :
    g.suspend count w (p :: word) =
      if w.events.size + 1 = count then { w with events := w.events.push event }
      else g.suspend count (g.step w p) word := by
  rw [suspend, placed]

theorem suspend_of_le (g : Gait α) (w : Walk α) {word : Text} {k : Nat} (short : (g.growth w word).length ≤ k) :
    g.suspend (w.events.size + k + 1) w word = g.resume w word := by
  induction word generalizing w k with
  | nil => rfl
  | cons p word ih =>
      have size := g.size_step w p
      rw [growth, List.length_append] at short
      rw [resume_cons]
      cases placed : g.placement? w (Symbol.ofCodePoint p) with
      | none =>
          rw [placed, Option.toList_none, List.length_nil] at size short
          have next : (g.step w p).events.size + k + 1 = w.events.size + k + 1 := by omega
          rw [g.suspend_of_still placed, ← ih (g.step w p) (k := k) (by omega), next]
      | some event =>
          rw [placed, Option.toList_some, List.length_singleton] at size short
          have next : (g.step w p).events.size + (k - 1) + 1 = w.events.size + k + 1 := by omega
          rw [g.suspend_of_placing placed, if_neg (by omega), ← ih (g.step w p) (k := k - 1) (by omega), next]

/-- A walk that rests at an event has read the word up to the code point that places it. -/
theorem suspend_of_lt (g : Gait α) (w : Walk α) {word : Text} {k : Nat} (inside : k < (g.growth w word).length) :
    ∃ i p event, word[i]? = some p ∧
      g.placement? (g.resume w (word.take i)) (Symbol.ofCodePoint p) = some event ∧
      (g.growth w (word.take i)).length = k ∧
      g.suspend (w.events.size + k + 1) w word =
        { g.resume w (word.take i) with events := (g.resume w (word.take i)).events.push event } := by
  induction word generalizing w k with
  | nil => cases inside
  | cons p word ih =>
      have size := g.size_step w p
      rw [growth, List.length_append] at inside
      cases placed : g.placement? w (Symbol.ofCodePoint p) with
      | none =>
          rw [placed, Option.toList_none, List.length_nil] at size inside
          obtain ⟨i, q, event, read, later, before, rests⟩ := ih (g.step w p) (k := k) (by omega)
          refine ⟨i + 1, q, event, read, later, ?_, ?_⟩
          · rw [List.take_succ_cons, growth, placed]
            exact before
          · rw [g.suspend_of_still placed]
            rw [size] at rests
            exact rests
      | some event =>
          rw [placed, Option.toList_some, List.length_singleton] at size inside
          cases k with
          | zero => exact ⟨0, p, event, rfl, placed, rfl, (g.suspend_of_placing placed _ word).trans (if_pos rfl)⟩
          | succ k =>
              obtain ⟨i, q, other, read, later, before, rests⟩ := ih (g.step w p) (k := k) (by omega)
              refine ⟨i + 1, q, other, read, later, ?_, ?_⟩
              · rw [List.take_succ_cons, growth, placed, Option.toList_some, List.length_append, before,
                  List.length_singleton, Nat.add_comm]
              · have next : w.events.size + 1 + k + 1 = w.events.size + (k + 1) + 1 := by omega
                rw [size, next] at rests
                rw [g.suspend_of_placing placed, if_neg (by omega)]
                exact rests

/-- A run that is suspended at an event is a run on the part of the word before the code point that places it. Only a
run that draws no event at all depends on the runs before it. -/
theorem suspended_at_prefix (g : Gait α) (runs : List (Option Nat × Text)) (word : Text) :
    (∀ take, take ≠ some 0 → g.draw (g.left runs) take word = g.draw none take word) ∧
      g.draw (g.left runs) none word = (g.events word, some (g.walk word).turtle) ∧
      (∀ k, (g.events word).length ≤ k → g.draw (g.left runs) (some (k + 1)) word = g.draw none none word) ∧
      ∀ k, k < (g.events word).length → ∃ i, word.Places k i ∧ (∀ j, word.Places k j → j = i) ∧
        (∃ p, word[i]? = some p ∧
          (g.events word)[k]? = g.placement? (g.walk (word.take i)) (Symbol.ofCodePoint p)) ∧
        g.draw (g.left runs) (some (k + 1)) word =
          ((g.events word).take (k + 1), (g.draw none none (word.take i)).2) := by
  have grown (word : Text) : g.events word = g.growth g.start word := by
    rw [events, walk, events_resume]
    rfl
  have fresh : g.start.events.size = 0 := rfl
  refine ⟨?_, rfl, ?_, ?_⟩
  · intro take found
    cases take with
    | none => rfl
    | some count =>
        cases count with
        | zero => exact absurd rfl found
        | succ k => rfl
  · intro k short
    have whole := g.suspend_of_le g.start (k := k) (by rwa [← grown word])
    rw [fresh, Nat.zero_add] at whole
    simp only [draw, whole]
    rfl
  · intro k inside
    obtain ⟨i, p, event, read, placed, before, rests⟩ := g.suspend_of_lt g.start (k := k) (by rwa [← grown word])
    rw [fresh, Nat.zero_add] at rests
    rw [length_growth] at before
    have place : word.Places k i := by
      refine ⟨?_, before⟩
      rcases g.read_of_placement? placed with rfl | rfl
      · exact .inl read
      · exact .inr read
    have drawn : (g.events word)[k]? = some event := by
      rw [← before]
      exact g.event_at read placed
    refine ⟨i, place, fun j other => other.unique place, ⟨p, read, drawn.trans placed.symm⟩, ?_⟩
    have parts := g.events_append (word.take i) (word.drop i)
    rw [List.take_append_drop] at parts
    have length : (g.events (word.take i)).length = k := by rw [length_events, before]
    have events : (g.events word).take (k + 1) = g.events (word.take i) ++ [event] := by
      rw [List.take_add_one, drawn, parts, List.take_left' length]
      rfl
    simp only [draw, rests, Array.toList_push, events]
    rfl

theorem suspended_at_prefix_bough :
    let word : Text := ['f', '[', '+', 'f', ']', 'l']
    let g : Gait Float := standard
    1 < (g.events word).length ∧
      g.draw (g.left [(some 1, ['[', 'f']), (none, [']']), (some 0, ['f'])]) (some 2) word =
        ((g.events word).take 2, some (g.walk ['f', '[', '+']).turtle) := by
  intro word g
  have inside : 1 < (g.events word).length := by
    rw [length_events]
    decide
  obtain ⟨-, -, -, suspended⟩ :=
    suspended_at_prefix g [(some 1, ['[', 'f']), (none, [']']), (some 0, ['f'])] word
  obtain ⟨i, -, only, -, drawn⟩ := suspended 1 inside
  have here : word.Places 1 3 := ⟨.inl rfl, rfl⟩
  rw [← only 3 here] at drawn
  exact ⟨inside, drawn⟩

end Gait

end Arbor
