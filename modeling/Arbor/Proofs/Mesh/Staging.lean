import Arbor.Proofs.Mesh.Merging

/-!
# Staging

Chunks may be merged a part at a time. What parts merge into merges again exactly when all chunks merge at once, and
into the same mesh: a merged part fits where its first chunk fits, and its indices move up as its chunks would have.
-/

namespace Arbor

namespace Faces

theorem shifted_zero (f : Faces) : f.shifted 0 = f := by
  cases f with
  | hollow rows => rfl
  | triangles rows =>
      have still : (Triangle.map (· + UInt32.ofNat 0)) = id := by
        funext t
        simp [Triangle.map]
      rw [shifted, still, List.map_id]

theorem shifted_shifted (first second : Nat) (f : Faces) :
    (f.shifted first).shifted second = f.shifted (first + second) := by
  cases f with
  | hollow rows => rfl
  | triangles rows => simp [shifted, Triangle.map, UInt32.add_assoc]

theorem append?_shifted (offset : Nat) (f g : Faces) :
    (f.shifted offset).append? (g.shifted offset) = (f.append? g).map (shifted offset) := by
  cases f <;> cases g <;> simp [shifted, append?]

theorem append?_assoc (f g h : Faces) :
    (f.append? g).bind (fun joined => joined.append? h) = (g.append? h).bind f.append? := by
  cases f <;> cases g <;> cases h <;> simp [append?, Nat.add_assoc]

theorem stack?_cons_cons (f g : Faces) (rest : List Faces) :
    stack? (f :: g :: rest) = (stack? (g :: rest)).bind f.append? :=
  rfl

theorem stack?_shifted (offset : Nat) (buffers : List Faces) :
    stack? (buffers.map (shifted offset)) = (stack? buffers).map (shifted offset) := by
  induction buffers with
  | nil => rfl
  | cons f rest ih =>
      cases rest with
      | nil => rfl
      | cons g rest =>
          rw [List.map_cons] at ih ⊢
          rw [List.map_cons, stack?_cons_cons, ih, stack?_cons_cons]
          cases stack? (g :: rest) with
          | none => rfl
          | some behind => exact append?_shifted offset f behind

theorem stack?_append {lower upper : List Faces} (begun : lower ≠ []) (more : upper ≠ []) :
    stack? (lower ++ upper) = (stack? lower).bind fun f => (stack? upper).bind f.append? := by
  induction lower with
  | nil => exact absurd rfl begun
  | cons f rest ih =>
      cases rest with
      | nil =>
          cases upper with
          | nil => exact absurd rfl more
          | cons g upper => rfl
      | cons g rest =>
          rw [List.cons_append] at ih ⊢
          rw [List.cons_append, stack?_cons_cons, ih (List.cons_ne_nil _ _), stack?_cons_cons, Option.bind_assoc,
            Option.bind_assoc]
          congr 1
          funext middle
          cases stack? upper with
          | none => cases f.append? middle <;> rfl
          | some last => exact (append?_assoc f middle last).symm

end Faces

namespace Chunk

variable {α : Type}

theorem shiftedFaces_append (offset : Nat) (xs ys : List (Chunk α)) :
    shiftedFaces offset (xs ++ ys) =
      shiftedFaces offset xs ++ shiftedFaces (offset + (xs.map vertexCount).sum) ys := by
  induction xs generalizing offset with
  | nil => rfl
  | cons c rest ih => simp [shiftedFaces, ih, Nat.add_assoc]

theorem shiftedFaces_add (offset more : Nat) (xs : List (Chunk α)) :
    shiftedFaces (offset + more) xs = (shiftedFaces offset xs).map (Faces.shifted more) := by
  induction xs generalizing offset with
  | nil => rfl
  | cons c rest ih =>
      have next : offset + more + c.vertexCount = offset + c.vertexCount + more := by omega
      rw [shiftedFaces, shiftedFaces, List.map_cons, Faces.shifted_shifted, next, ih]

theorem shiftedFaces_ne_nil {xs : List (Chunk α)} (begun : xs ≠ []) (offset : Nat) : shiftedFaces offset xs ≠ [] := by
  cases xs with
  | nil => exact absurd rfl begun
  | cons c rest => exact List.cons_ne_nil _ _

theorem stack?_stages {xs ys : List (Chunk α)} (begun : xs ≠ []) (others : ys ≠ []) :
    Faces.stack? (shiftedFaces 0 (xs ++ ys)) =
      (Faces.stack? (shiftedFaces 0 xs)).bind fun f =>
        (Faces.stack? (shiftedFaces 0 ys)).bind fun g => f.append? (g.shifted (xs.map vertexCount).sum) := by
  rw [shiftedFaces_append, shiftedFaces_add 0, Faces.stack?_append (shiftedFaces_ne_nil begun 0), Faces.stack?_shifted]
  · simp only [Option.bind_map, Function.comp_def]
  · simpa using shiftedFaces_ne_nil others 0

theorem stack?_pair (a b : Chunk α) :
    Faces.stack? (shiftedFaces 0 [a, b]) = a.faces.append? (b.faces.shifted a.vertexCount) := by
  rw [shiftedFaces, shiftedFaces, shiftedFaces, Faces.shifted_zero, Nat.zero_add]
  rfl

variable {schema other : Schema} {c x y z : Chunk α}

theorem Fits.trans (behind : c.Fits schema y) (ahead : y.Fits schema x) : c.Fits schema x where
  names := behind.names
  normals := behind.normals
  columns := by
    rintro ⟨name, column⟩ carried
    obtain ⟨length, dtype, middle, found, shape⟩ := behind.columns _ carried
    obtain ⟨-, -, reference, head, same⟩ := ahead.columns _ (Table.mem_of_get? found)
    exact ⟨length, dtype, reference, head, shape.trans same⟩

theorem Fits.beside (fits : c.Fits schema x) (also : y.Fits schema x) : c.Fits schema y where
  names := fits.names
  normals := fits.normals
  columns := by
    rintro ⟨name, column⟩ carried
    obtain ⟨length, dtype, reference, head, shape⟩ := fits.columns _ carried
    have known : name ∈ Table.keys schema := (fits.names name).mp (Table.mem_keys_of_mem carried)
    obtain ⟨own, found, -, -, again, headAgain, same⟩ := column_of_fits also known
    have one : again = reference := Option.some.inj (headAgain.symm.trans head)
    exact ⟨length, dtype, own, found, shape.trans (one ▸ same.symm)⟩

theorem Fits.agree (fits : y.Fits schema x) (also : y.Fits other z) (name : Text) :
    Table.get? name schema = Table.get? name other := by
  by_cases known : name ∈ Table.keys schema
  · obtain ⟨column, found, -, dtype, -⟩ := column_of_fits fits known
    exact dtype.trans (also.columns _ (Table.mem_of_get? found)).2.1.symm
  · have unknown : name ∉ Table.keys other := fun listed => known ((fits.names name).mp ((also.names name).mpr listed))
    rw [Table.get?_eq_none_of_not_mem_keys known, Table.get?_eq_none_of_not_mem_keys unknown]

theorem Fits.congr (fits : c.Fits schema x) (same : ∀ name, Table.get? name schema = Table.get? name other) :
    c.Fits other x where
  names := by
    intro name
    rw [fits.names name, Table.mem_keys_iff, Table.mem_keys_iff, same name]
  normals := fits.normals
  columns := by
    intro entry carried
    obtain ⟨length, dtype, rest⟩ := fits.columns entry carried
    exact ⟨length, same entry.1 ▸ dtype, rest⟩

theorem Fits.own (fits : y.Fits schema x) : y.Fits y.schema y := by
  have same (name : Text) : Table.get? name schema = Table.get? name y.schema := by
    have stored : Table.get? name y.schema = (y.column? name).map Column.dtype :=
      Table.get?_map name (fun _ (column : Column α) => column.dtype) y.attributes
    cases found : y.column? name with
    | some column =>
        rw [stored, found, Option.map_some]
        exact (fits.columns _ (Table.mem_of_get? found)).2.1
    | none =>
        rw [stored, found, Option.map_none]
        apply Table.get?_eq_none_of_not_mem_keys
        intro known
        obtain ⟨column, present, -⟩ := column_of_fits fits known
        rw [found] at present
        cases present
  exact (fits.beside fits).congr same

end Chunk

namespace Mesh

variable {α : Type} {schema other : Schema} {first z : Chunk α} {chunks : List (Chunk α)} {faces : Faces}

theorem length_flatMap_congr {β γ : Type} {one : Chunk α → List β} {two : Chunk α → List γ}
    (same : ∀ c ∈ chunks, (one c).length = (two c).length) :
    (chunks.flatMap one).length = (chunks.flatMap two).length := by
  rw [List.length_flatMap, List.length_flatMap, List.map_congr_left same]

theorem exists_column_gathered (first : Chunk α) (chunks : List (Chunk α)) (faces : Faces) {name : Text}
    (known : name ∈ Table.keys schema) :
    ∃ dtype, (gathered schema first chunks faces).toChunk.column? name =
      some (Chunk.joined chunks first name dtype) := by
  obtain ⟨dtype, found⟩ := Table.exists_get?_of_mem_keys known
  refine ⟨dtype, ?_⟩
  have column : (gathered schema first chunks faces).column? name = _ := column?_gathered schema first faces name
  rw [found, Option.map_some] at column
  exact column

theorem items_gathered {name : Text} (known : name ∈ Table.keys schema) :
    (gathered schema first chunks faces).toChunk.items name = chunks.flatMap fun c => c.items name := by
  obtain ⟨dtype, found⟩ := exists_column_gathered first chunks faces known
  rw [Chunk.items, found]
  rfl

theorem shape_gathered {name : Text} (known : name ∈ Table.keys schema) :
    (gathered schema first chunks faces).toChunk.shape name = first.shape name := by
  obtain ⟨dtype, found⟩ := exists_column_gathered first chunks faces known
  rw [Chunk.shape, found]
  rfl

theorem length_items_gathered (each : ∀ c ∈ chunks, c.Fits schema first) {name : Text}
    (known : name ∈ Table.keys schema) :
    (chunks.flatMap fun c => c.items name).length = (chunks.flatMap Chunk.positions).length := by
  refine length_flatMap_congr fun c member => ?_
  obtain ⟨column, found, length, -⟩ := Chunk.column_of_fits (each c member) known
  rw [Chunk.items, found]
  exact length

theorem fits_gathered_iff (head : first ∈ chunks) (each : ∀ c ∈ chunks, c.Fits schema first)
    (single : ∀ entry ∈ schema, Table.get? entry.1 schema = some entry.2) :
    (gathered schema first chunks faces).toChunk.Fits other z ↔ first.Fits other z := by
  have keys : (gathered schema first chunks faces).toChunk.attributes.keys = Table.keys schema :=
    Table.keys_map (Chunk.joined chunks first) schema
  have own := each first head
  constructor
  · intro fits
    refine ⟨?_, own.normals, ?_⟩
    · intro name
      rw [own.names name, ← keys, fits.names name]
    · rintro ⟨name, column⟩ carried
      obtain ⟨length, dtype, reference, found, shape⟩ := own.columns _ carried
      have listed : (name, Chunk.joined chunks first name column.dtype) ∈
          (gathered schema first chunks faces).toChunk.attributes :=
        List.mem_map.mpr ⟨_, Table.mem_of_get? dtype, rfl⟩
      obtain ⟨-, stored, leading, leads, same⟩ := fits.columns _ listed
      refine ⟨length, stored, leading, leads, ?_⟩
      rw [← same, Chunk.joined, Chunk.shape, found, Option.map_some, Option.getD_some]
      exact shape
  · intro fits
    refine ⟨?_, ?_, ?_⟩
    · intro name
      rw [keys, ← own.names name, fits.names name]
    · exact length_flatMap_congr fun c member => (each c member).normals
    · intro entry carried
      obtain ⟨⟨name, dtype⟩, listed, rfl⟩ := List.mem_map.mp carried
      have known : name ∈ Table.keys schema := Table.mem_keys_of_mem listed
      obtain ⟨column, found, -, stored, -⟩ := Chunk.column_of_fits own known
      obtain ⟨-, again, reference, leads, shape⟩ := fits.columns _ (Table.mem_of_get? found)
      have same : column.dtype = dtype := Option.some.inj (stored.symm.trans (single _ listed))
      refine ⟨length_items_gathered each known, same ▸ again, reference, leads, ?_⟩
      change first.shape name = _
      rw [Chunk.shape, found, Option.map_some, Option.getD_some]
      exact shape

theorem fits_ruled {schema : Option Schema} (fits : first.Fits (schema.getD other) z) :
    first.Fits (schema.getD first.schema) first := by
  cases schema with
  | none => exact fits.own
  | some given => exact fits.beside fits

theorem single_of_ruled {schema : Option Schema} (distinct : ∀ given, schema = some given → (Table.keys given).Nodup)
    (fits : first.Fits (schema.getD first.schema) z) :
    ∀ entry ∈ schema.getD first.schema, Table.get? entry.1 (schema.getD first.schema) = some entry.2 := by
  intro entry listed
  cases schema with
  | some given => exact Table.get?_of_mem (distinct given rfl) listed
  | none =>
      obtain ⟨own, carried, rfl⟩ := List.mem_map.mp listed
      exact (fits.columns own carried).2.1

/-- All chunks fit behind the first one when those of each part do and the first ones go together. -/
theorem fits_stages {schema : Option Schema} {x y : Chunk α} {xs ys : List (Chunk α)} :
    (∀ c ∈ x :: xs ++ y :: ys, c.Fits (schema.getD x.schema) x) ↔
      (∀ c ∈ x :: xs, c.Fits (schema.getD x.schema) x) ∧ (∀ c ∈ y :: ys, c.Fits (schema.getD y.schema) y) ∧
        y.Fits (schema.getD x.schema) x := by
  rw [List.forall_mem_append, and_congr_right_iff]
  intro _
  -- All at once, the second part is held against the first chunk of all; by itself, against its own first chunk.
  constructor
  · intro behind
    have joint := behind y List.mem_cons_self
    have agree := joint.agree (fits_ruled joint)
    exact ⟨fun c member => ((behind c member).beside joint).congr agree, joint⟩
  · rintro ⟨among, joint⟩ c member
    have agree := (fits_ruled joint).agree joint
    exact ((among c member).congr agree).trans joint

theorem gathered_stages {x y : Chunk α} {xs ys : List (Chunk α)} {f g : Faces}
    (same : ∀ name ∈ Table.keys schema, name ∈ Table.keys other) :
    gathered schema (gathered schema x xs f).toChunk
        [(gathered schema x xs f).toChunk, (gathered other y ys g).toChunk] faces =
      gathered schema x (xs ++ ys) faces := by
  have columns (entry : Text × Dtype) (listed : entry ∈ schema) :
      Chunk.joined [(gathered schema x xs f).toChunk, (gathered other y ys g).toChunk] (gathered schema x xs f).toChunk
          entry.1 entry.2 = Chunk.joined (xs ++ ys) x entry.1 entry.2 := by
    have known : entry.1 ∈ Table.keys schema := Table.mem_keys_of_mem listed
    simp only [Chunk.joined, shape_gathered known, List.flatMap_cons, List.flatMap_nil, List.append_nil,
      items_gathered known, items_gathered (same _ known), List.flatMap_append]
  rw [gathered, gathered, Mesh.mk.injEq]
  refine ⟨?_, ?_, rfl, ?_⟩
  · simp [gathered, toChunk]
  · simp [gathered, toChunk]
  · exact List.map_congr_left fun entry listed => congrArg (Prod.mk entry.1) (columns entry listed)

theorem vertexCount_gathered (schema : Schema) (first : Chunk α) (chunks : List (Chunk α)) (faces : Faces) :
    (gathered schema first chunks faces).toChunk.vertexCount = (chunks.map Chunk.vertexCount).sum :=
  List.length_flatMap

theorem merge_pair_iff {schema : Option Schema} (distinct : ∀ given, schema = some given → (Table.keys given).Nodup)
    {x y : Chunk α} {xs ys : List (Chunk α)} {f g : Faces} {m : Mesh α}
    (left : ∀ c ∈ x :: xs, c.Fits (schema.getD x.schema) x) (right : ∀ c ∈ y :: ys, c.Fits (schema.getD y.schema) y) :
    merge [(gathered (schema.getD x.schema) x (x :: xs) f).toChunk,
        (gathered (schema.getD y.schema) y (y :: ys) g).toChunk] schema = .ok m ↔
      y.Fits (schema.getD x.schema) x ∧
        ∃ faces, f.append? (g.shifted ((x :: xs).map Chunk.vertexCount).sum) = some faces ∧
          m = gathered (schema.getD x.schema) x (x :: xs ++ y :: ys) faces := by
  have ruled : schema.getD (gathered (schema.getD x.schema) x (x :: xs) f).toChunk.schema = schema.getD x.schema := by
    rw [schema_gathered]
    cases schema <;> rfl
  have own := left x List.mem_cons_self
  have later := right y List.mem_cons_self
  have lower : (gathered (schema.getD x.schema) x (x :: xs) f).toChunk.Fits (schema.getD x.schema) x :=
    (fits_gathered_iff List.mem_cons_self left (single_of_ruled distinct own)).mpr own
  have upper {z : Chunk α} : (gathered (schema.getD y.schema) y (y :: ys) g).toChunk.Fits (schema.getD x.schema) z ↔
      y.Fits (schema.getD x.schema) z :=
    fits_gathered_iff List.mem_cons_self right (single_of_ruled distinct later)
  have fits : (∀ c ∈ [(gathered (schema.getD x.schema) x (x :: xs) f).toChunk,
      (gathered (schema.getD y.schema) y (y :: ys) g).toChunk],
        c.Fits (schema.getD x.schema) (gathered (schema.getD x.schema) x (x :: xs) f).toChunk) ↔
      y.Fits (schema.getD x.schema) x := by
    rw [List.forall_mem_cons, List.forall_mem_singleton, upper]
    exact ⟨fun both => both.2.trans lower, fun joint => ⟨lower.beside lower, joint.beside lower⟩⟩
  have stacked : Faces.stack? (Chunk.shiftedFaces 0 [(gathered (schema.getD x.schema) x (x :: xs) f).toChunk,
      (gathered (schema.getD y.schema) y (y :: ys) g).toChunk]) =
        f.append? (g.shifted ((x :: xs).map Chunk.vertexCount).sum) := by
    rw [← vertexCount_gathered (schema.getD x.schema) x (x :: xs) f, Chunk.stack?_pair]
    rfl
  rw [merge_eq_ok_iff, ruled, fits, stacked, and_congr_right_iff]
  intro joint
  have same (name : Text) (listed : name ∈ Table.keys (schema.getD x.schema)) :
      name ∈ Table.keys (schema.getD y.schema) :=
    (later.names name).mp ((joint.names name).mpr listed)
  refine exists_congr fun faces => ?_
  rw [gathered_stages same]

structure Holds (m : Mesh α) (c : Chunk α) : Prop where
  positions : m.positions = c.positions
  normals : m.normals = c.normals
  faces : m.faces = c.faces
  columns : ∀ name, m.column? name = c.column? name

theorem holds_of_merge {schema : Option Schema} {c : Chunk α} {m : Mesh α} (merged : merge [c] schema = .ok m) :
    m.Holds c := by
  obtain ⟨each, faces, stacked, rfl⟩ := merge_eq_ok_iff.mp merged
  have fits := each c List.mem_cons_self
  have whole : c.faces.shifted 0 = faces := Option.some.inj stacked
  refine ⟨List.flatMap_singleton .., List.flatMap_singleton .., ?_, ?_⟩
  · rw [← Faces.shifted_zero c.faces, whole]
    rfl
  · intro name
    rw [column?_gathered]
    by_cases known : name ∈ Table.keys (schema.getD c.schema)
    · obtain ⟨column, found, -, dtype, -⟩ := Chunk.column_of_fits fits known
      rw [dtype, Option.map_some, found, Chunk.joined, Chunk.shape, found, List.flatMap_singleton, Chunk.items, found]
      rfl
    · have absent : c.column? name = none :=
        Table.get?_eq_none_of_not_mem_keys fun carried => known ((fits.names name).mp carried)
      rw [Table.get?_eq_none_of_not_mem_keys known, absent, Option.map_none]

/-- Chunks merge at once exactly when they merge a part at a time, into the same mesh, and one chunk alone stays what it
is. -/
theorem merge_in_stages {schema : Option Schema} {xs ys : List (Chunk α)} (begun : xs ≠ []) (others : ys ≠ [])
    (distinct : ∀ given, schema = some given → (Table.keys given).Nodup) :
    (∀ m, merge (xs ++ ys) schema = .ok m ↔
      ∃ lower upper, merge xs schema = .ok lower ∧ merge ys schema = .ok upper ∧
        merge [lower.toChunk, upper.toChunk] schema = .ok m) ∧
      ∀ c : Chunk α, (c.Fits (schema.getD c.schema) c → ∃ m, merge [c] schema = .ok m) ∧
        ∀ m, merge [c] schema = .ok m → m.Holds c := by
  refine ⟨fun m => ?_, fun c => ⟨fun fits => ?_, fun m merged => holds_of_merge merged⟩⟩
  · obtain ⟨x, xs, rfl⟩ := List.exists_cons_of_ne_nil begun
    obtain ⟨y, ys, rfl⟩ := List.exists_cons_of_ne_nil others
    rw [List.cons_append, merge_eq_ok_iff, ← List.cons_append, fits_stages, Chunk.stack?_stages begun others]
    constructor
    · rintro ⟨⟨left, right, joint⟩, faces, stacked, rfl⟩
      obtain ⟨f, first, rest⟩ := Option.bind_eq_some_iff.mp stacked
      obtain ⟨g, second, appended⟩ := Option.bind_eq_some_iff.mp rest
      exact ⟨_, _, merge_eq_ok_iff.mpr ⟨left, f, first, rfl⟩, merge_eq_ok_iff.mpr ⟨right, g, second, rfl⟩,
        (merge_pair_iff distinct left right).mpr ⟨joint, faces, appended, rfl⟩⟩
    · rintro ⟨lower, upper, below, above, merged⟩
      obtain ⟨left, f, first, rfl⟩ := merge_eq_ok_iff.mp below
      obtain ⟨right, g, second, rfl⟩ := merge_eq_ok_iff.mp above
      obtain ⟨joint, faces, appended, rfl⟩ := (merge_pair_iff distinct left right).mp merged
      exact ⟨⟨left, right, joint⟩, faces, Option.bind_eq_some_iff.mpr ⟨f, first,
        Option.bind_eq_some_iff.mpr ⟨g, second, appended⟩⟩, rfl⟩
  · have each : ∀ other ∈ [c], other.Fits (schema.getD c.schema) c := by
      intro other member
      rw [List.mem_singleton.mp member]
      exact fits
    exact ⟨_, merge_eq_ok_iff.mpr ⟨each, c.faces.shifted 0, rfl, rfl⟩⟩

theorem merge_in_stages_wrapping :
    let corners : List (Vec3 Float) := [⟨0, 0, 0⟩, ⟨1, 0, 0⟩, ⟨0, 0, 1⟩]
    let tile (face : Triangle UInt32) : Chunk Float :=
      ⟨corners, corners, .triangles [face], [("branch_radius", .ofReals .single [1, 2, 3])]⟩
    let xs := [tile ⟨0, 1, 2⟩, tile ⟨2, 1, 0⟩]
    let ys := [tile ⟨4294967295, 0, 1⟩]
    ∃ m lower upper, merge (xs ++ ys) none = .ok m ∧ m.faces = .triangles [⟨0, 1, 2⟩, ⟨5, 4, 3⟩, ⟨5, 6, 7⟩] ∧
      merge xs none = .ok lower ∧ merge ys none = .ok upper ∧ merge [lower.toChunk, upper.toChunk] none = .ok m := by
  intro corners tile xs ys
  obtain ⟨m, merged, faces⟩ : ∃ m, merge (xs ++ ys) none = .ok m ∧
      m.faces = .triangles [⟨0, 1, 2⟩, ⟨5, 4, 3⟩, ⟨5, 6, 7⟩] := ⟨_, rfl, by decide⟩
  have distinct : ∀ given, (none : Option Schema) = some given → (Table.keys given).Nodup := by
    intro given absent
    cases absent
  obtain ⟨lower, upper, parts⟩ :=
    ((merge_in_stages (List.cons_ne_nil _ _) (List.cons_ne_nil _ _) distinct).1 m).mp merged
  exact ⟨m, lower, upper, merged, faces, parts⟩

end Mesh

end Arbor
