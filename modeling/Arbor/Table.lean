/-!
# Tables

Finite maps that remember the order in which their keys came. A key written again keeps its place and
takes the new value, so a table never holds a key twice.
-/

namespace Arbor

abbrev Table (κ ν : Type) := List (κ × ν)

namespace Table

variable {κ ν : Type} [DecidableEq κ]

def get? (key : κ) : Table κ ν → Option ν
  | [] => none
  | (k, v) :: rest => if k = key then some v else get? key rest

def put (key : κ) (value : ν) : Table κ ν → Table κ ν
  | [] => [(key, value)]
  | (k, v) :: rest => if k = key then (k, value) :: rest else (k, v) :: put key value rest

def ofList (pairs : List (κ × ν)) : Table κ ν :=
  pairs.foldl (fun table pair => put pair.1 pair.2 table) []

def keys (table : Table κ ν) : List κ := table.map Prod.fst

omit [DecidableEq κ] in
@[simp] theorem keys_nil : keys ([] : Table κ ν) = [] := rfl

omit [DecidableEq κ] in
@[simp] theorem keys_cons (k : κ) (v : ν) (table : Table κ ν) :
    keys ((k, v) :: table) = k :: keys table := rfl

@[simp] theorem get?_put_self (key : κ) (value : ν) (table : Table κ ν) :
    get? key (put key value table) = some value := by
  induction table with
  | nil => simp [put, get?]
  | cons pair rest ih =>
      obtain ⟨k, v⟩ := pair
      by_cases h : k = key <;> simp [put, get?, h, ih]

theorem get?_put_of_ne {key other : κ} (h : key ≠ other) (value : ν) (table : Table κ ν) :
    get? other (put key value table) = get? other table := by
  induction table with
  | nil => simp [put, get?, h]
  | cons pair rest ih =>
      obtain ⟨k, v⟩ := pair
      by_cases hk : k = key
      · subst hk; simp [put, get?, h]
      · simp [put, get?, hk, ih]

theorem keys_put (key : κ) (value : ν) (table : Table κ ν) :
    keys (put key value table) = if key ∈ keys table then keys table else keys table ++ [key] := by
  induction table with
  | nil => simp [put]
  | cons pair rest ih =>
      obtain ⟨k, v⟩ := pair
      by_cases hk : k = key
      · subst hk; simp [put]
      · have hk' : ¬ key = k := fun e => hk e.symm
        by_cases hm : key ∈ keys rest <;> simp [put, hk, hk', ih, hm]

theorem get?_append (key : κ) (first second : Table κ ν) :
    get? key (first ++ second) = (get? key first).or (get? key second) := by
  induction first with
  | nil => rfl
  | cons pair rest ih =>
      obtain ⟨k, v⟩ := pair
      by_cases h : k = key <;> simp [get?, h, ih]

omit [DecidableEq κ] in
@[simp] theorem keys_map {μ : Type} (f : κ → ν → μ) (table : Table κ ν) :
    keys (table.map fun entry => (entry.1, f entry.1 entry.2)) = keys table := by
  rw [keys, keys, List.map_map]
  rfl

theorem get?_map {μ : Type} (key : κ) (f : κ → ν → μ) (table : Table κ ν) :
    get? key (table.map fun entry => (entry.1, f entry.1 entry.2)) = (get? key table).map (f key) := by
  induction table with
  | nil => rfl
  | cons pair rest ih =>
      obtain ⟨k, v⟩ := pair
      by_cases h : k = key
      · subst h; simp [get?]
      · simp [get?, h, ih]

theorem mem_keys_put {key other : κ} {value : ν} {table : Table κ ν} :
    other ∈ keys (put key value table) ↔ other = key ∨ other ∈ keys table := by
  rw [keys_put]
  by_cases present : key ∈ keys table
  · rw [if_pos present]
    constructor
    · exact .inr
    · rintro (rfl | member)
      · exact present
      · exact member
  · rw [if_neg present, List.mem_append, List.mem_singleton, Or.comm]

theorem mem_put {key : κ} {value : ν} {table : Table κ ν} {entry : κ × ν}
    (member : entry ∈ put key value table) : entry = (key, value) ∨ entry ∈ table := by
  induction table with
  | nil => exact .inl (List.mem_singleton.mp member)
  | cons pair rest ih =>
      obtain ⟨k, v⟩ := pair
      by_cases same : k = key
      · subst same
        rw [put, if_pos rfl] at member
        rcases List.mem_cons.mp member with equal | later
        · exact .inl equal
        · exact .inr (List.mem_cons_of_mem _ later)
      · rw [put, if_neg same] at member
        rcases List.mem_cons.mp member with equal | later
        · exact .inr (equal ▸ List.mem_cons_self)
        · exact (ih later).imp id (List.mem_cons_of_mem _)

theorem mem_foldl_put {pairs : List (κ × ν)} {table : Table κ ν} {entry : κ × ν}
    (member : entry ∈ pairs.foldl (fun table pair => put pair.1 pair.2 table) table) : entry ∈ table ∨ entry ∈ pairs := by
  induction pairs generalizing table with
  | nil => exact .inl member
  | cons pair pairs ih =>
      rcases ih member with written | later
      · rcases mem_put written with equal | before
        · exact .inr (equal ▸ List.mem_cons_self)
        · exact .inl before
      · exact .inr (List.mem_cons_of_mem _ later)

theorem mem_ofList {pairs : List (κ × ν)} {entry : κ × ν} (member : entry ∈ ofList pairs) : entry ∈ pairs := by
  rcases mem_foldl_put member with absent | given
  · cases absent
  · exact given

omit [DecidableEq κ] in
theorem mem_keys_of_mem {table : Table κ ν} {entry : κ × ν} (member : entry ∈ table) : entry.1 ∈ keys table :=
  List.mem_map.mpr ⟨entry, member, rfl⟩

theorem mem_of_get? {key : κ} {value : ν} {table : Table κ ν} (found : get? key table = some value) :
    (key, value) ∈ table := by
  induction table with
  | nil => cases found
  | cons pair rest ih =>
      obtain ⟨k, v⟩ := pair
      by_cases same : k = key
      · subst same
        have value : v = value := by simpa [get?] using found
        exact value ▸ List.mem_cons_self
      · exact List.mem_cons_of_mem _ (ih (by simpa [get?, same] using found))

theorem exists_get?_of_mem_keys {key : κ} {table : Table κ ν} (member : key ∈ keys table) :
    ∃ value, get? key table = some value := by
  induction table with
  | nil => cases member
  | cons pair rest ih =>
      obtain ⟨k, v⟩ := pair
      by_cases same : k = key
      · exact ⟨v, by simp [get?, same]⟩
      · rcases List.mem_cons.mp member with equal | later
        · exact absurd equal.symm same
        · obtain ⟨value, found⟩ := ih later
          exact ⟨value, by simpa [get?, same] using found⟩

theorem get?_eq_none_of_not_mem_keys {key : κ} {table : Table κ ν} (absent : key ∉ keys table) :
    get? key table = none := by
  cases found : get? key table with
  | none => rfl
  | some value => exact absurd (List.mem_map.mpr ⟨_, mem_of_get? found, rfl⟩) absent

theorem mem_keys_iff {key : κ} {table : Table κ ν} : key ∈ keys table ↔ ∃ value, get? key table = some value :=
  ⟨exists_get?_of_mem_keys, fun ⟨_, found⟩ => mem_keys_of_mem (mem_of_get? found)⟩

theorem get?_of_mem {table : Table κ ν} (distinct : (keys table).Nodup) {key : κ} {value : ν}
    (member : (key, value) ∈ table) : get? key table = some value := by
  induction table with
  | nil => cases member
  | cons pair rest ih =>
      obtain ⟨k, v⟩ := pair
      rw [keys_cons, List.nodup_cons] at distinct
      rcases List.mem_cons.mp member with same | later
      · cases same
        exact if_pos rfl
      · have other : k ≠ key := by
          rintro rfl
          exact distinct.1 (mem_keys_of_mem later)
        rw [get?, if_neg other, ih distinct.2 later]

end Table

end Arbor
