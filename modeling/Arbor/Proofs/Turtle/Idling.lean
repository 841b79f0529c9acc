import Arbor.Proofs.Thinning
import Arbor.Proofs.Turtle.Continuity
import Arbor.Proofs.Turtle.Suspension

/-!
# Idling

Code points that mean nothing to a turtle, and leaves, leave it where it is. They may be taken out of a word: the turtle
walks the same way, and nothing is missing but the leaves that were taken out.
-/

namespace Arbor

def Symbol.alphabet : Text := ['f', 'l', '[', ']', '+', '-', '^', 'v', '<', '>']

theorem Symbol.ofCodePoint_of_passive {p : CodePoint} (passive : p ∉ alphabet) : ofCodePoint p = noop := by
  unfold ofCodePoint
  split <;> simp_all [alphabet]

namespace Text

/-- The marks of those code points of a word that place something. -/
def placing : List Bool → Text → List Bool
  | _, [] => []
  | marks, p :: word =>
      if p = .scalar 'f' ∨ p = .scalar 'l' then marks.headD false :: placing marks.tail word
      else placing marks.tail word

theorem places_zero {p : CodePoint} {word : Text} {k : Nat} :
    Places (p :: word) k 0 ↔ (p = .scalar 'f' ∨ p = .scalar 'l') ∧ 0 = k := by
  simp [Places]

theorem places_succ {p : CodePoint} {word : Text} {k i : Nat} :
    Places (p :: word) k (i + 1) ↔
      ∃ j, word.Places j i ∧ k = j + if p = .scalar 'f' ∨ p = .scalar 'l' then 1 else 0 := by
  simp only [Places, List.getElem?_cons_succ, List.take_succ_cons, List.count_cons, beq_iff_eq]
  constructor
  · rintro ⟨read, counted⟩
    refine ⟨_, ⟨read, rfl⟩, ?_⟩
    rw [← counted]
    by_cases forward : p = .scalar 'f' <;> by_cases leaf : p = .scalar 'l' <;> simp_all <;> omega
  · rintro ⟨j, ⟨read, counted⟩, rfl⟩
    refine ⟨read, ?_⟩
    rw [← counted]
    by_cases forward : p = .scalar 'f' <;> by_cases leaf : p = .scalar 'l' <;> simp_all <;> omega

theorem getElem?_placing {marks : List Bool} {word : Text} {k : Nat} :
    (word.placing marks)[k]? = some true ↔ ∃ i : Nat, marks[i]? = some true ∧ word.Places k i := by
  induction word generalizing marks k with
  | nil => simp [placing, Places]
  | cons p word ih =>
      rw [← Nat.or_exists_add_one, placing, places_zero]
      simp only [places_succ]
      by_cases places : p = .scalar 'f' ∨ p = .scalar 'l'
      · rw [if_pos places]
        cases k with
        | zero =>
            rw [List.getElem?_cons_zero, Option.some.injEq, headD_eq_true_iff]
            simp [places]
        | succ k => simp [places, ih]
      · simp [places, ih]

end Text

namespace Gait

variable {α : Type} [Scalar α]

/-- Two walks that stand alike, whatever they have placed before. -/
structure Abreast (v w : Walk α) : Prop where
  turtle : v.turtle = w.turtle
  placed : v.placed = w.placed

theorem placement?_of_abreast (g : Gait α) {v w : Walk α} (same : Abreast v w) (symbol : Symbol) :
    g.placement? v symbol = g.placement? w symbol := by
  cases symbol <;> simp only [placement?, same.turtle, same.placed]

theorem abreast_step (g : Gait α) {v w : Walk α} (same : Abreast v w) (p : CodePoint) :
    Abreast (g.step v p) (g.step w p) := by
  obtain ⟨turtle, placed⟩ := same
  rcases p.quiet_or with rfl | rfl | rfl | rfl | quiet
  · simp only [step_forward, turtle, placed]
    exact ⟨rfl, rfl⟩
  · exact ⟨turtle, placed⟩
  · exact ⟨congrArg Turtle.push turtle, placed⟩
  · exact ⟨congrArg Turtle.pop turtle, placed⟩
  · obtain ⟨turned, passed, step⟩ := g.step_quiet quiet
    rw [step v, step w, turtle]
    exact ⟨rfl, placed⟩

/-- A code point that leaves the turtle as it is. -/
def Idle (p : CodePoint) : Prop := p ∉ Symbol.alphabet ∨ p = .scalar 'l'

theorem abreast_idle (g : Gait α) {p : CodePoint} (idle : Idle p) (w : Walk α) : Abreast w (g.step w p) := by
  rcases idle with passive | rfl
  · have stays : g.step w p = { w with passive := w.passive + 1 } := by
      rw [step, Symbol.ofCodePoint_of_passive passive]
      rfl
    rw [stays]
    exact ⟨rfl, rfl⟩
  · exact ⟨rfl, rfl⟩

omit [Scalar α] in
theorem Abreast.trans {u v w : Walk α} (first : Abreast u v) (second : Abreast v w) : Abreast u w :=
  ⟨first.turtle.trans second.turtle, first.placed.trans second.placed⟩

theorem exists_placement? (g : Gait α) (w : Walk α) {p : CodePoint} (places : p = .scalar 'f' ∨ p = .scalar 'l') :
    ∃ event, g.placement? w (Symbol.ofCodePoint p) = some event := by
  rcases places with rfl | rfl
  · exact ⟨_, rfl⟩
  · exact ⟨_, rfl⟩

theorem thin_placing (g : Gait α) (w : Walk α) (marks : List Bool) (p : CodePoint) (word : Text)
    (later : List (Event α)) :
    thin (Text.placing marks (p :: word)) ((g.placement? w (Symbol.ofCodePoint p)).toList ++ later) =
      (if marks.headD false then [] else (g.placement? w (Symbol.ofCodePoint p)).toList) ++
        thin (word.placing marks.tail) later := by
  by_cases places : p = .scalar 'f' ∨ p = .scalar 'l'
  · obtain ⟨event, placed⟩ := g.exists_placement? w places
    rw [Text.placing, if_pos places, placed, Option.toList_some, List.singleton_append]
    cases marks.headD false with
    | true => rfl
    | false => rfl
  · have absent : g.placement? w (Symbol.ofCodePoint p) = none := by
      cases placed : g.placement? w (Symbol.ofCodePoint p) with
      | none => rfl
      | some event => exact absurd (g.read_of_placement? placed) places
    rw [Text.placing, if_neg places, absent, Option.toList_none, ite_self]
    rfl

theorem abreast_resume (g : Gait α) {v w : Walk α} (same : Abreast v w) {marks : List Bool} {word : Text}
    (idle : ∀ (i : Nat) p, marks[i]? = some true → word[i]? = some p → Idle p) :
    Abreast (g.resume v (thin marks word)) (g.resume w word) ∧
      g.growth v (thin marks word) = thin (word.placing marks) (g.growth w word) := by
  induction word generalizing marks v w with
  | nil => exact ⟨same, rfl⟩
  | cons p word ih =>
      have rest (i : Nat) (q : CodePoint) (mark : marks.tail[i]? = some true) (read : word[i]? = some q) : Idle q :=
        idle (i + 1) q (List.getElem?_tail.symm.trans mark) read
      rw [growth, g.thin_placing]
      by_cases gone : marks.headD false = true
      · have stays := g.abreast_idle (idle 0 p (headD_eq_true_iff.mp gone) rfl) w
        rw [thin_cons_of_gone gone, if_pos gone]
        exact ih (same.trans stays) rest
      · obtain ⟨last, grown⟩ := ih (g.abreast_step same p) rest
        rw [thin_cons_of_kept gone, if_neg gone, growth, g.placement?_of_abreast same, grown]
        exact ⟨last, rfl⟩

theorem events_thin (g : Gait α) {marks : List Bool} {word : Text}
    (idle : ∀ (i : Nat) p, marks[i]? = some true → word[i]? = some p → Idle p) :
    g.events (thin marks word) = thin (word.placing marks) (g.events word) ∧
      (g.walk (thin marks word)).turtle = (g.walk word).turtle := by
  obtain ⟨last, grown⟩ := g.abreast_resume (v := g.start) ⟨rfl, rfl⟩ idle
  refine ⟨?_, last.turtle⟩
  rw [events, walk, events_resume, grown, events, walk, events_resume]
  rfl

theorem events_thin_of_passive (g : Gait α) {marks : List Bool} {word : Text}
    (passive : ∀ (i : Nat) p, marks[i]? = some true → word[i]? = some p → p ∉ Symbol.alphabet) :
    g.events (thin marks word) = g.events word := by
  rw [(g.events_thin fun i p mark read => .inl (passive i p mark read)).1, thin_of_unmarked]
  intro k mark
  obtain ⟨i, gone, read, -⟩ := Text.getElem?_placing.mp mark
  rcases read with read | read
  · exact passive i _ gone read (by decide)
  · exact passive i _ gone read (by decide)

/-- What is gone with idle code points are leaves. -/
theorem leaf_of_placing (g : Gait α) {marks : List Bool} {word : Text}
    (idle : ∀ (i : Nat) p, marks[i]? = some true → word[i]? = some p → Idle p) {k : Nat} {event : Event α}
    (gone : (word.placing marks)[k]? = some true) (placed : (g.events word)[k]? = some event) :
    ∃ l, event = .leaf l := by
  obtain ⟨i, mark, read, counted⟩ := Text.getElem?_placing.mp gone
  have leaf : word[i]? = some (.scalar 'l') := by
    rcases read with read | read
    · rcases idle i _ mark read with passive | other
      · exact absurd (by decide) passive
      · cases other
    · exact read
  have drawn := g.event_at leaf rfl
  rw [counted, placed] at drawn
  exact ⟨_, Option.some.inj drawn⟩

theorem segments_thin (g : Gait α) {marks : List Bool} {word : Text}
    (idle : ∀ (i : Nat) p, marks[i]? = some true → word[i]? = some p → Idle p) :
    segments (g.events (thin marks word)) = segments (g.events word) := by
  rw [(g.events_thin idle).1]
  apply filterMap_thin
  intro k event gone placed
  obtain ⟨l, rfl⟩ := g.leaf_of_placing idle gone placed
  rfl

end Gait

end Arbor
