import Arbor.Proofs.Config.Refusal
import Arbor.Proofs.Wind.Checking

/-!
# What a configuration says

A value describes a configuration when each of its fields is what it has to be, or is absent where the configuration has
the usual value. Exactly what is described is read.
-/

namespace Arbor

open Outcome

variable {α : Type}

namespace Value

inductive IsNumber [Scalar α] : Value α → α → Prop where
  | real (x : α) : IsNumber (.real x) x
  | int {n : Int} {x : α} (near : Scalar.ofInt? n = some x) : IsNumber (.int n) x

def IsTriple [Scalar α] (v : Value α) (xs : List α) : Prop :=
  ∃ items, v = .list items ∧ items.length = 3 ∧ List.Forall₂ IsNumber items xs

inductive IsChance [Scalar α] : Value α → Option α → Prop where
  | null : IsChance .null none
  | number {v : Value α} {x : α} (given : v.IsNumber x) : IsChance v (some x)

/-- A field is what it has to be, or is absent where there is the usual value. -/
def Holds {β : Type} (fields : Table Text (Value α)) (name : String) (standard : β) (means : Value α → β → Prop)
    (x : β) : Prop :=
  match field? name fields with
  | some v => means v x
  | none => x = standard

theorem entry_eq_ok_iff {β : Type} {fields : Table Text (Value α)} {name : String} {standard x : β}
    {read : Value α → Except (Fault α) β} {means : Value α → β → Prop}
    (reads : ∀ v, read v = .ok x ↔ means v x) :
    entry fields name standard read = .ok x ↔ Holds fields name standard means x := by
  rw [entry, Holds]
  cases field? name fields with
  | some v => exact reads v
  | none =>
      change (.ok standard : Except (Fault α) β) = .ok x ↔ x = standard
      rw [Except.ok.injEq, eq_comm]

theorem toInteger_eq_ok {path : Text} {v : Value α} {n : Int} : v.toInteger path = .ok n ↔ v = .int n := by
  cases v <;> simp [toInteger]

theorem toText_eq_ok {path : Text} {v : Value α} {t : Text} : v.toText path = .ok t ↔ v = .text t := by
  cases v <;> simp [toText]

theorem toObject_eq_ok {path : Text} {v : Value α} {fields : Table Text (Value α)} :
    v.toObject path = .ok fields ↔ v = .object fields := by
  cases v <;> simp [toObject]

variable [Scalar α]

theorem toNumber_eq_ok {path : Text} {v : Value α} {x : α} : v.toNumber path = .ok x ↔ v.IsNumber x := by
  constructor
  · intro read
    cases v with
    | int n =>
        rw [toNumber] at read
        split at read
        · rename_i near
          cases read
          exact .int near
        · cases read
    | real =>
        cases read
        exact .real x
    | _ => cases read
  · rintro (x | near)
    · rfl
    · rw [toNumber, near]

theorem toNumber?_eq_ok {path : Text} {v : Value α} {o : Option α} : v.toNumber? path = .ok o ↔ v.IsChance o := by
  constructor
  · intro read
    rw [toNumber?.eq_def] at read
    split at read
    · cases read
      exact .null
    · obtain ⟨x, number, same⟩ := bind_eq_ok read
      cases same
      exact .number (toNumber_eq_ok.mp number)
  · rintro (- | given)
    · rfl
    · have number : v.toNumber path = .ok _ := toNumber_eq_ok.mpr given
      cases given with
      | real => rfl
      | int =>
          change (toNumber path _ >>= fun x => pure (some x)) = _
          rw [number, ok_bind, pure_eq]

theorem toTriple_eq_ok {path : Text} {v : Value α} {xs : List α} : v.toTriple path = .ok xs ↔ v.IsTriple xs := by
  constructor
  · intro read
    rw [toTriple.eq_def] at read
    split at read
    · obtain ⟨x, first, read⟩ := bind_eq_ok read
      obtain ⟨y, second, read⟩ := bind_eq_ok read
      obtain ⟨z, third, read⟩ := bind_eq_ok read
      cases read
      exact ⟨_, rfl, rfl, .cons (toNumber_eq_ok.mp first) (.cons (toNumber_eq_ok.mp second)
        (.cons (toNumber_eq_ok.mp third) .nil))⟩
    · cases read
  · rintro ⟨items, rfl, three, numbers⟩
    obtain ⟨a, b, c, rfl⟩ := List.length_eq_three.mp three
    cases numbers with
    | cons first later =>
        cases later with
        | cons second later =>
            cases later with
            | cons third later =>
                cases later
                rw [toTriple, toNumber_eq_ok.mpr first, ok_bind, toNumber_eq_ok.mpr second, ok_bind,
                  toNumber_eq_ok.mpr third, ok_bind, pure_eq]

section

variable {fields : Table Text (Value α)} {name : String} {path : Text}

theorem entry_number {standard x : α} :
    entry fields name standard (toNumber path) = .ok x ↔ Holds fields name standard IsNumber x :=
  entry_eq_ok_iff fun _ => toNumber_eq_ok

theorem entry_chance {standard o : Option α} :
    entry fields name standard (toNumber? path) = .ok o ↔ Holds fields name standard IsChance o :=
  entry_eq_ok_iff fun _ => toNumber?_eq_ok

theorem entry_triple {standard xs : List α} :
    entry fields name standard (toTriple path) = .ok xs ↔ Holds fields name standard IsTriple xs :=
  entry_eq_ok_iff fun _ => toTriple_eq_ok

omit [Scalar α]

theorem entry_integer {standard n : Int} :
    entry fields name standard (toInteger path) = .ok n ↔ Holds fields name standard (fun v n => v = .int n) n :=
  entry_eq_ok_iff fun _ => toInteger_eq_ok

theorem entry_text {standard t : Text} :
    entry fields name standard (toText path) = .ok t ↔ Holds fields name standard (fun v t => v = .text t) t :=
  entry_eq_ok_iff fun _ => toText_eq_ok

theorem entry_object {standard entries : Table Text (Value α)} :
    entry fields name standard (toObject path) = .ok entries ↔
      Holds fields name standard (fun v entries => v = .object entries) entries :=
  entry_eq_ok_iff fun _ => toObject_eq_ok

end

end Value

open Value (Holds IsNumber IsTriple IsChance)

namespace Mode

theorem ofName?_eq_some {t : Text} {m : Mode} : ofName? t = some m ↔ t = m.name := by
  constructor
  · intro found
    rw [ofName?] at found
    split at found
    · cases found
      assumption
    · split at found
      · cases found
        assumption
      · cases found
  · rintro rfl
    exact ofName?_name m

theorem ofEntry_eq_ok {v : Value α} {m : Mode} : ofEntry v = .ok m ↔ v = .text m.name := by
  rw [ofEntry, bind_eq_ok_iff]
  constructor
  · rintro ⟨t, text, found⟩
    split at found
    · rename_i other named
      cases found
      rw [Value.toText_eq_ok.mp text, ofName?_eq_some.mp named]
    · cases found
  · rintro rfl
    refine ⟨m.name, rfl, ?_⟩
    rw [ofName?_name]
    rfl

theorem entry_mode {fields : Table Text (Value α)} {name : String} {standard m : Mode} :
    Value.entry fields name standard ofEntry = .ok m ↔ Holds fields name standard (fun v m => v = .text m.name) m :=
  Value.entry_eq_ok_iff fun _ => ofEntry_eq_ok

end Mode

variable [Scalar α]

structure TreeParams.Described (fields : Table Text (Value α)) (p : TreeParams α) : Prop where
  mode : Holds fields "mode" (standard : TreeParams α).mode (fun v mode => v = .text mode.name) p.mode
  startRadius : Holds fields "start_radius" standard.startRadius IsNumber p.startRadius
  radiusReduction : Holds fields "radius_reduction" standard.radiusReduction IsNumber p.radiusReduction
  branchLength : Holds fields "branch_length" standard.branchLength IsNumber p.branchLength
  angle : Holds fields "angle" standard.angle IsNumber p.angle
  position : Holds fields "position" standard.position IsTriple p.position
  radialSegments :
    Holds fields "radial_segments" (standard : TreeParams α).radialSegments (fun v n => v = .int n) p.radialSegments
  leafRadius : Holds fields "leaf_radius" standard.leafRadius IsNumber p.leafRadius
  leafSegments :
    Holds fields "leaf_segments" (standard : TreeParams α).leafSegments (fun v n => v = .int n) p.leafSegments
  usable : p.Usable

theorem TreeParams.ofEntries_eq_ok {fields : Table Text (Value α)} {p : TreeParams α} :
    ofEntries fields = .ok p ↔ Described fields p := by
  rw [ofEntries]
  simp only [bind_eq_ok_iff, Mode.entry_mode, Value.entry_number, Value.entry_triple, Value.entry_integer]
  constructor
  · rintro ⟨_, m, _, r, _, d, _, l, _, a, _, o, _, k, _, f, _, s, _, passed, same⟩
    cases same
    exact ⟨m, r, d, l, a, o, k, f, s, usable_iff.mp passed⟩
  · rintro ⟨m, r, d, l, a, o, k, f, s, usable⟩
    exact ⟨_, m, _, r, _, d, _, l, _, a, _, o, _, k, _, f, _, s, (), usable_iff.mpr usable, rfl⟩

structure Wind.Described (fields : Table Text (Value α)) (w : Wind α) : Prop where
  direction : Holds fields "direction" standard.direction IsTriple w.direction
  strength : Holds fields "strength" standard.strength IsNumber w.strength
  noise : Holds fields "noise_sample" standard.noise IsChance w.noise
  usable : w.Usable

theorem Wind.ofEntries_eq_ok {fields : Table Text (Value α)} {w : Wind α} :
    ofEntries fields = .ok w ↔ Described fields w := by
  rw [ofEntries]
  simp only [bind_eq_ok_iff, Value.entry_number, Value.entry_triple, Value.entry_chance]
  constructor
  · rintro ⟨_, d, _, s, _, n, _, passed, same⟩
    cases same
    exact ⟨d, s, n, usable_iff.mp passed⟩
  · rintro ⟨d, s, n, usable⟩
    exact ⟨_, d, _, s, _, n, (), usable_iff.mpr usable, rfl⟩

namespace TreeConfig

omit [Scalar α] in
def ruleEntry (rule : CodePoint × Text) : Text × Value α := ([rule.1], .text rule.2)

/-- The fields of an object say which tree is to be grown. -/
structure DescribedBy (fields : Table Text (Value α)) (c : TreeConfig α) : Prop where
  initiator : Holds fields "axiom" [] (fun v t => v = .text t) c.initiator
  started : c.initiator ≠ []
  iterations : Holds fields "iterations" 6 (fun v n => v = .int n) c.iterations
  counted : 0 ≤ c.iterations
  rules : Holds fields "rules" [] (fun v entries => v = .object entries) (c.rules.map ruleEntry)
  name : Holds fields "name" (Text.ofString "Tree") (fun v t => v = .text t) c.name
  tree : ∃ entries, Holds fields "tree" [] (fun v entries => v = .object entries) entries ∧ c.tree.Described entries
  wind : ∃ entries, Holds fields "wind" [] (fun v entries => v = .object entries) entries ∧ c.wind.Described entries

/-- A value says which tree is to be grown. -/
def Described (v : Value α) (c : TreeConfig α) : Prop := ∃ fields, v = .object fields ∧ c.DescribedBy fields

omit [Scalar α] in
theorem ruleOf_eq_ok {entry : Text × Value α} {rule : CodePoint × Text} :
    ruleOf entry = .ok rule ↔ entry = ruleEntry rule := by
  obtain ⟨key, v⟩ := entry
  obtain ⟨symbol, word⟩ := rule
  constructor
  · intro read
    rw [ruleOf] at read
    split at read
    · rename_i other single
      obtain ⟨t, text, same⟩ := bind_eq_ok read
      cases same
      rw [ruleEntry, Prod.mk.injEq]
      exact ⟨single, Value.toText_eq_ok.mp text⟩
    · cases read
  · intro same
    cases same
    rfl

theorem ofValue_eq_ok {v : Value α} {c : TreeConfig α} : ofValue v = .ok c ↔ Described v c := by
  rw [ofValue]
  -- Each step of the reader becomes a condition, with what is read there bound beside it.
  simp only [bind_eq_ok_iff, guard_eq_ok_iff, Value.toObject_eq_ok, Value.entry_text, Value.entry_integer,
    Value.entry_object, mapM_eq_ok_iff fun _ _ => ruleOf_eq_ok, TreeParams.ofEntries_eq_ok, Wind.ofEntries_eq_ok]
  constructor
  · rintro ⟨fields, shape, _, word, started, _, times, counted, _, rules, _, rfl, _, name, trees, t, _, tree, winds, w,
      _, wind, same⟩
    cases same
    exact ⟨fields, shape, word, by simpa using started, times, Int.not_lt.mp counted, rules, name, ⟨trees, t, tree⟩,
      ⟨winds, w, wind⟩⟩
  · rintro ⟨fields, shape, word, started, times, counted, rules, name, ⟨trees, t, tree⟩, ⟨winds, w, wind⟩⟩
    exact ⟨fields, shape, _, word, by simpa using started, _, times, Int.not_lt.mpr counted, _, rules, _, rfl, _, name,
      trees, t, _, tree, winds, w, _, wind, rfl⟩

theorem usable_of_described {v : Value α} {c : TreeConfig α} (described : Described v c) :
    c.tree.Usable ∧ c.wind.Usable := by
  obtain ⟨fields, -, said⟩ := described
  obtain ⟨trees, -, tree⟩ := said.tree
  obtain ⟨winds, -, wind⟩ := said.wind
  exact ⟨tree.usable, wind.usable⟩

end TreeConfig

end Arbor
