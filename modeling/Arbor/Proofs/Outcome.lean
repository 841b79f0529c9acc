import Mathlib.Data.List.Forall2

namespace Arbor

namespace Outcome

variable {ε β γ : Type}

@[simp] theorem ok_bind (x : β) (f : β → Except ε γ) : (Except.ok x >>= f) = f x := rfl

@[simp] theorem error_bind (e : ε) (f : β → Except ε γ) : (Except.error e >>= f) = .error e := rfl

@[simp] theorem pure_eq (x : β) : (pure x : Except ε β) = .ok x := rfl

@[simp] theorem throw_eq (e : ε) : (throw e : Except ε β) = .error e := rfl

theorem bind_eq_ok {x : Except ε β} {f : β → Except ε γ} {result : γ} (run : (x >>= f) = .ok result) :
    ∃ value, x = .ok value ∧ f value = .ok result := by
  cases x with
  | error e => cases run
  | ok value => exact ⟨value, rfl, run⟩

theorem bind_eq_ok_iff {x : Except ε β} {f : β → Except ε γ} {result : γ} :
    (x >>= f) = .ok result ↔ ∃ value, x = .ok value ∧ f value = .ok result := by
  constructor
  · exact bind_eq_ok
  · rintro ⟨value, first, later⟩
    rw [first, ok_bind, later]

theorem check_eq_ok_iff {x : Except ε Unit} {f : Unit → Except ε γ} {result : γ} :
    (x >>= f) = .ok result ↔ x = .ok () ∧ f () = .ok result := by
  cases x with
  | error e => simp
  | ok value => simp

theorem guard_eq_ok_iff {condition : Prop} [Decidable condition] {fault : ε} {never : γ → Except ε β}
    {rest : Except ε β} {result : β} :
    (if condition then throw fault >>= never else rest) = .ok result ↔ ¬ condition ∧ rest = .ok result := by
  by_cases holds : condition
  · rw [if_pos holds, iff_false_right (fun both => both.1 holds)]
    intro stopped
    cases stopped
  · rw [if_neg holds, and_iff_right holds]

theorem mapM_eq_ok {f : β → Except ε γ} {g : β → γ} {xs : List β} (each : ∀ x ∈ xs, f x = .ok (g x)) :
    xs.mapM f = .ok (xs.map g) := by
  induction xs with
  | nil => rfl
  | cons x xs ih =>
      rw [List.mapM_cons, each x List.mem_cons_self, ih fun y member => each y (List.mem_cons_of_mem _ member)]
      rfl

theorem mapM_check {passes : β → Prop} [DecidablePred passes] {f : β → Except ε γ} {g : β → γ} {e : ε}
    (each : ∀ x, f x = if passes x then .ok (g x) else .error e) (xs : List β) :
    xs.mapM f = if ∀ x ∈ xs, passes x then .ok (xs.map g) else .error e := by
  induction xs with
  | nil => rfl
  | cons x xs ih =>
      rw [List.mapM_cons, each, ih]
      by_cases first : passes x
      · by_cases rest : ∀ y ∈ xs, passes y
        · rw [if_pos first, if_pos rest, if_pos (List.forall_mem_cons.mpr ⟨first, rest⟩)]
          rfl
        · rw [if_pos first, if_neg rest, if_neg fun every => rest (List.forall_mem_cons.mp every).2]
          rfl
      · rw [if_neg first, if_neg fun every => first (List.forall_mem_cons.mp every).1]
        rfl

theorem mapM_map {δ ζ : Type} {f : β → Except ε γ} {f' : δ → Except ε ζ} {before : β → δ} {after : γ → ζ}
    (each : ∀ x, f' (before x) = (f x).map after) (xs : List β) :
    (xs.map before).mapM f' = (xs.mapM f).map (List.map after) := by
  induction xs with
  | nil => rfl
  | cons x xs ih =>
      rw [List.map_cons, List.mapM_cons, List.mapM_cons, each, ih]
      cases f x with
      | error e => rfl
      | ok y => cases xs.mapM f <;> rfl

theorem mapM_relates {f : β → Except ε γ} {relates : β → γ → Prop} {xs : List β}
    (each : ∀ x ∈ xs, ∃ y, f x = .ok y ∧ relates x y) : ∃ ys, xs.mapM f = .ok ys ∧ List.Forall₂ relates xs ys := by
  induction xs with
  | nil => exact ⟨[], rfl, .nil⟩
  | cons x xs ih =>
      obtain ⟨y, first, related⟩ := each x List.mem_cons_self
      obtain ⟨ys, later, rest⟩ := ih fun other member => each other (List.mem_cons_of_mem _ member)
      refine ⟨y :: ys, ?_, .cons related rest⟩
      rw [List.mapM_cons, first, later]
      rfl

theorem mapM_of_each {f : β → Except ε γ} {xs : List β} (each : ∀ x ∈ xs, ∃ y, f x = .ok y) :
    ∃ ys, xs.mapM f = .ok ys ∧ ys.length = xs.length := by
  obtain ⟨ys, run, related⟩ : ∃ ys, xs.mapM f = .ok ys ∧ List.Forall₂ (fun _ _ => True) xs ys := by
    apply mapM_relates
    intro x member
    obtain ⟨y, goes⟩ := each x member
    exact ⟨y, goes, trivial⟩
  exact ⟨ys, run, related.length_eq.symm⟩

theorem mapM_eq_error {f : β → Except ε γ} {xs : List β} {e : ε}
    (each : ∀ x ∈ xs, (∃ y, f x = .ok y) ∨ f x = .error e) {x : β} (member : x ∈ xs) (fails : f x = .error e) :
    xs.mapM f = .error e := by
  induction xs with
  | nil => cases member
  | cons first rest ih =>
      rw [List.mapM_cons]
      rcases each first List.mem_cons_self with ⟨y, goes⟩ | stops
      · have later : x ∈ rest := by
          rcases List.mem_cons.mp member with rfl | later
          · rw [goes] at fails
            cases fails
          · exact later
        rw [goes, ok_bind, ih (fun other inside => each other (List.mem_cons_of_mem _ inside)) later, error_bind]
      · rw [stops, error_bind]

theorem forM_eq_ok_iff {f : β → Except ε Unit} {xs : List β} : xs.forM f = .ok () ↔ ∀ x ∈ xs, f x = .ok () := by
  induction xs with
  | nil => exact ⟨fun _ x member => (nomatch member), fun _ => rfl⟩
  | cons x xs ih =>
      change (f x >>= fun _ => xs.forM f) = .ok () ↔ _
      rw [check_eq_ok_iff, ih, List.forall_mem_cons]

theorem exists_of_forM_eq_error {f : β → Except ε Unit} {xs : List β} {fault : ε}
    (stopped : xs.forM f = .error fault) : ∃ x ∈ xs, f x = .error fault := by
  induction xs with
  | nil => cases stopped
  | cons x xs ih =>
      change (f x >>= fun _ => xs.forM f) = .error fault at stopped
      cases first : f x with
      | error other =>
          rw [first] at stopped
          cases stopped
          exact ⟨x, List.mem_cons_self, first⟩
      | ok passed =>
          rw [first, ok_bind] at stopped
          obtain ⟨y, later, fails⟩ := ih stopped
          exact ⟨y, List.mem_cons_of_mem _ later, fails⟩

theorem foldlM_counts {f : γ → β → Except ε γ} (holds : Nat → γ → Prop) {xs : List β}
    (each : ∀ k x, xs[k]? = some x → ∀ state, holds k state → ∃ next, f state x = .ok next ∧ holds (k + 1) next)
    {state : γ} (first : holds 0 state) : ∃ last, xs.foldlM f state = .ok last ∧ holds xs.length last := by
  induction xs generalizing state holds with
  | nil => exact ⟨state, rfl, first⟩
  | cons x xs ih =>
      obtain ⟨next, run, second⟩ := each 0 x rfl state first
      rw [List.foldlM_cons, run, ok_bind]
      exact ih (fun k => holds (k + 1)) (fun k y found => each (k + 1) y found) second

theorem foldlM_keeps {f : γ → β → Except ε γ} (keeps : γ → Prop) {xs : List β}
    (each : ∀ state x next, keeps state → f state x = .ok next → keeps next) {state last : γ} (kept : keeps state)
    (run : xs.foldlM f state = .ok last) : keeps last := by
  induction xs generalizing state with
  | nil =>
      cases run
      exact kept
  | cons x xs ih =>
      obtain ⟨next, first, rest⟩ := bind_eq_ok run
      exact ih (each state x next kept first) rest

theorem forall₂_of_mapM {f : β → Except ε γ} {xs : List β} {ys : List γ} (run : xs.mapM f = .ok ys) :
    List.Forall₂ (fun x y => f x = .ok y) xs ys := by
  induction xs generalizing ys with
  | nil =>
      cases run
      exact .nil
  | cons x xs ih =>
      rw [List.mapM_cons] at run
      obtain ⟨y, first, rest⟩ := bind_eq_ok run
      obtain ⟨later, runLater, same⟩ := bind_eq_ok rest
      cases same
      exact .cons first (ih runLater)

theorem mapM_eq_ok_iff {f : β → Except ε γ} {back : γ → β} (each : ∀ x y, f x = .ok y ↔ x = back y) {xs : List β}
    {ys : List γ} : xs.mapM f = .ok ys ↔ xs = ys.map back := by
  constructor
  · intro run
    have whole := forall₂_of_mapM run
    clear run
    induction whole with
    | nil => rfl
    | cons related _ ih => rw [List.map_cons, ← ih, (each _ _).mp related]
  · rintro rfl
    induction ys with
    | nil => rfl
    | cons y ys ih =>
        rw [List.map_cons, List.mapM_cons, (each _ y).mpr rfl, ih]
        rfl

theorem related_of_getElem? {relates : β → γ → Prop} {xs : List β} {ys : List γ} (each : List.Forall₂ relates xs ys)
    {i : Nat} {y : γ} (found : ys[i]? = some y) : ∃ x, xs[i]? = some x ∧ relates x y := by
  induction each generalizing i with
  | nil => cases found
  | cons related _ ih =>
      cases i with
      | zero =>
          cases found
          exact ⟨_, rfl, related⟩
      | succ i => exact ih found

theorem getElem?_of_mapM {f : β → Except ε γ} {xs : List β} {ys : List γ} (run : xs.mapM f = .ok ys) {i : Nat} {x : β}
    (found : xs[i]? = some x) : ∃ y, f x = .ok y ∧ ys[i]? = some y := by
  obtain ⟨y, drawn, related⟩ := related_of_getElem? (forall₂_of_mapM run).flip found
  exact ⟨y, related, drawn⟩

theorem getElem?_eq_of_mapM {f : β → Except ε γ} {xs : List β} {ys : List γ} (run : xs.mapM f = .ok ys) {i j : Nat}
    (same : xs[i]? = xs[j]?) : ys[i]? = ys[j]? := by
  cases found : xs[i]? with
  | some x =>
      obtain ⟨y, first, left⟩ := getElem?_of_mapM run found
      obtain ⟨z, second, right⟩ := getElem?_of_mapM run (same.symm.trans found)
      rw [first, Except.ok.injEq] at second
      rw [left, right, second]
  | none =>
      have size := (forall₂_of_mapM run).length_eq
      rw [same] at found
      rw [List.getElem?_eq_none (size ▸ List.getElem?_eq_none_iff.mp (same.trans found)),
        List.getElem?_eq_none (size ▸ List.getElem?_eq_none_iff.mp found)]

theorem related_of_mem {relates : β → γ → Prop} {xs : List β} {ys : List γ} (each : List.Forall₂ relates xs ys) {y : γ}
    (member : y ∈ ys) : ∃ x ∈ xs, relates x y := by
  induction each with
  | nil => cases member
  | cons related _ ih =>
      rcases List.mem_cons.mp member with rfl | later
      · exact ⟨_, List.mem_cons_self, related⟩
      · obtain ⟨x, inside, holds⟩ := ih later
        exact ⟨x, List.mem_cons_of_mem _ inside, holds⟩

/-- Whatever stops a computation is of a sort. -/
def StopsOnly (sort : ε → Prop) (x : Except ε β) : Prop := ∀ fault, x = .error fault → sort fault

namespace StopsOnly

variable {sort wider : ε → Prop}

theorem ok (x : β) : StopsOnly sort (.ok x : Except ε β) := by
  intro fault stopped
  cases stopped

theorem error {fault : ε} (holds : sort fault) : StopsOnly sort (.error fault : Except ε β) := by
  intro other stopped
  cases stopped
  exact holds

theorem mono {x : Except ε β} (stops : StopsOnly sort x) (widens : ∀ fault, sort fault → wider fault) :
    StopsOnly wider x :=
  fun fault stopped => widens fault (stops fault stopped)

theorem bind {x : Except ε β} {f : β → Except ε γ} (first : StopsOnly sort x)
    (later : ∀ y, x = .ok y → StopsOnly sort (f y)) : StopsOnly sort (x >>= f) := by
  cases x with
  | error fault => exact error (first fault rfl)
  | ok y => exact later y rfl

theorem guard {condition : Prop} [Decidable condition] {fault : ε} {never : γ → Except ε β} {rest : Except ε β}
    (holds : sort fault) (goes : ¬ condition → StopsOnly sort rest) :
    StopsOnly sort (if condition then throw fault >>= never else rest) := by
  by_cases stops : condition
  · rw [if_pos stops]
    exact error holds
  · rw [if_neg stops]
    exact goes stops

theorem mapM {f : β → Except ε γ} {xs : List β} (each : ∀ x ∈ xs, StopsOnly sort (f x)) : StopsOnly sort (xs.mapM f) := by
  induction xs with
  | nil => exact ok []
  | cons x xs ih =>
      rw [List.mapM_cons]
      refine (each x List.mem_cons_self).bind fun y _ => ?_
      refine (ih fun other member => each other (List.mem_cons_of_mem _ member)).bind fun ys _ => ?_
      exact ok (y :: ys)

end StopsOnly

end Outcome

end Arbor
