import Arbor.Proofs.Tree.Growing

/-!
# Custody

A builder keeps at most one asset alive, the one it built last. Whoever else works and whatever fails, an asset stays
as it is until its own builder lets go of it or it is released outright.
-/

namespace Arbor

namespace Session

variable {α : Type}

/-- Makers are known for all assets: a live one is held by its maker, and what a builder holds it has made. -/
structure Kept (makers : List Nat) (s : Session α) : Prop where
  each : makers.length = s.assets.size
  live : ∀ (i : Nat) (a : Asset α) (b : Nat), s.assets[i]? = some a → a.isDisposed = false → makers[i]? = some b →
    s.held b = some i
  held : ∀ b i, s.held b = some i → makers[i]? = some b
  whole : ∀ (i : Nat) (a : Asset α), s.assets[i]? = some a → a.isDisposed = false → a.Whole

theorem kept_start (builders : Nat) (settings : BoneSway α) : Kept [] (start builders settings) where
  each := rfl
  live := by
    intro i a b found
    simp [start] at found
  held := by
    intro b i holds
    simp only [Session.held, start, Array.getElem?_replicate] at holds
    split at holds <;> simp at holds
  whole := by
    intro i a found
    simp [start] at found

section

variable {makers : List Nat} {s : Session α}

theorem Kept.letGo (kept : Kept makers s) {next : Session α} (size : next.assets.size = s.assets.size)
    (left : ∀ (i : Nat) (a : Asset α), next.assets[i]? = some a → a.isDisposed = false →
      s.assets[i]? = some a ∧ ∀ b, s.held b = some i → next.held b = some i)
    (fewer : ∀ b i, next.held b = some i → s.held b = some i) : Kept makers next where
  each := kept.each.trans size.symm
  live := by
    intro i a b found alive made
    obtain ⟨before, holds⟩ := left i a found alive
    exact holds b (kept.live i a b before alive made)
  held := by
    intro b i holds
    exact kept.held b i (fewer b i holds)
  whole := by
    intro i a found alive
    exact kept.whole i a (left i a found alive).1 alive

theorem alive_of_dispose {condition : Prop} [Decidable condition] {present : Option (Asset α)} {a : Asset α}
    (found : (if condition then present.map Asset.dispose else present) = some a) (alive : a.isDisposed = false) :
    ¬ condition ∧ present = some a := by
  by_cases holds : condition
  · rw [if_pos holds] at found
    obtain ⟨old, -, rfl⟩ := Option.map_eq_some_iff.mp found
    cases alive
  · rw [if_neg holds] at found
    exact ⟨holds, found⟩

theorem Kept.release (kept : Kept makers s) (i : Nat) : Kept makers (s.release i) := by
  refine kept.letGo ?_ ?_ fun b j holds => holds
  · simp [Session.release]
  · intro j a found alive
    rw [getElem?_release] at found
    exact ⟨(alive_of_dispose found alive).2, fun b holds => holds⟩

theorem Kept.clear (kept : Kept makers s) (b : Nat) : Kept makers (s.clear b) := by
  refine kept.letGo (s.size_clear b) ?_ ?_
  · intro i a found alive
    rw [getElem?_clear] at found
    obtain ⟨other, present⟩ := alive_of_dispose found alive
    refine ⟨present, fun c holds => ?_⟩
    have different : c ≠ b := by
      rintro rfl
      exact other holds
    rw [held_clear, if_neg different, holds]
  · intro c i holds
    rw [held_clear] at holds
    split at holds
    · cases holds
    · exact holds

theorem Kept.install (kept : Kept makers s) {b : Nat} (inside : b < s.current.size) {a : Asset α}
    (whole : a.Whole) : Kept (makers ++ [b]) (s.install b a) := by
  have cleared := kept.clear b
  have newest : (makers ++ [b])[s.assets.size]? = some b := by
    rw [← kept.each]
    exact List.getElem?_concat_length
  have older {i : Nat} (before : i < s.assets.size) : (makers ++ [b])[i]? = makers[i]? :=
    List.getElem?_append_left (by rw [kept.each]; exact before)
  have range {i : Nat} {x : Asset α} (found : (s.clear b).assets[i]? = some x) : i < s.assets.size := by
    have bound := (Array.getElem?_eq_some_iff.mp found).1
    rwa [size_clear] at bound
  refine ⟨?_, ?_, ?_, ?_⟩
  · simp [kept.each]
  · intro i x c found alive made
    rw [getElem?_install] at found
    rw [held_install _ inside]
    by_cases last : i = s.assets.size
    · subst last
      rw [newest, Option.some.injEq] at made
      rw [if_pos made.symm]
    · rw [if_neg last] at found
      rw [older (range found)] at made
      have holds := cleared.live i x c found alive made
      rw [held_clear] at holds
      by_cases same : c = b
      · rw [if_pos same] at holds
        cases holds
      · rw [if_neg same] at holds ⊢
        exact holds
  · intro c i holds
    rw [held_install _ inside] at holds
    by_cases same : c = b
    · rw [if_pos same, Option.some.injEq] at holds
      rw [same, ← holds, newest]
    · rw [if_neg same] at holds
      have made := kept.held c i holds
      have bound := (List.getElem?_eq_some_iff.mp made).1
      rw [kept.each] at bound
      rw [older bound, made]
  · intro i x found alive
    rw [getElem?_install] at found
    by_cases last : i = s.assets.size
    · rw [if_pos last, Option.some.injEq] at found
      exact found ▸ whole
    · rw [if_neg last] at found
      exact cleared.whole i x found alive

end

theorem Kept.installAll {makers : List Nat} {s : Session α} (kept : Kept makers s) {b : Nat}
    (inside : b < s.current.size) {assets : List (Asset α)} (whole : ∀ a ∈ assets, a.Whole) :
    Kept (makers ++ List.replicate assets.length b) (s.installAll b assets) ∧
      ∀ c, c ≠ b → (s.installAll b assets).held c = s.held c ∧
        ∀ i : Nat, makers[i]? = some c → (s.installAll b assets).assets[i]? = s.assets[i]? := by
  induction assets generalizing makers s with
  | nil =>
      refine ⟨?_, fun c _ => ⟨rfl, fun i _ => rfl⟩⟩
      simpa [Session.installAll] using kept
  | cons a assets ih =>
      have first := kept.install inside (whole a List.mem_cons_self)
      have bound : b < (s.install b a).current.size := by
        rw [size_current_install]
        exact inside
      obtain ⟨rest, frame⟩ := ih first bound fun other member => whole other (List.mem_cons_of_mem _ member)
      rw [installAll_cons]
      refine ⟨?_, ?_⟩
      · rw [List.append_assoc, List.singleton_append] at rest
        rwa [List.length_cons, List.replicate_succ]
      · intro c other
        obtain ⟨holds, later⟩ := frame c other
        refine ⟨?_, fun i made => ?_⟩
        · rw [holds, held_install _ inside, if_neg other]
        · have within := (List.getElem?_eq_some_iff.mp made).1
          have before : i < s.assets.size := by rwa [← kept.each]
          have notHeld : s.held b ≠ some i := by
            intro holds
            have own := kept.held b i holds
            rw [made, Option.some.injEq] at own
            exact other own
          rw [later i (by rw [List.getElem?_append_left within, made]), getElem?_install,
            if_neg (Nat.ne_of_lt before), getElem?_clear, if_neg notHeld]

theorem change_apart {makers : List Nat} {s next : Session α} (kept : Kept makers s) {operation : Operation α}
    (changed : Change s operation next) {c : Nat} (other : s.worker operation ≠ some c) :
    next.held c = s.held c ∧
      ((∀ i, operation ≠ .dispose i) → ∀ i : Nat, makers[i]? = some c → next.assets[i]? = s.assets[i]?) := by
  cases changed with
  | given b assets works whole =>
      rw [works, ne_eq, Option.some.injEq] at other
      obtain ⟨holds, stays⟩ := (kept.installAll (worker_lt works) whole).2 c (Ne.symm other)
      exact ⟨holds, fun _ => stays⟩
  | cleared b works =>
      rw [works, ne_eq, Option.some.injEq] at other
      refine ⟨by rw [held_clear, if_neg (Ne.symm other)], fun _ i made => ?_⟩
      have notHeld : s.held b ≠ some i := by
        intro holds
        have own := kept.held b i holds
        rw [made, Option.some.injEq] at own
        exact other own.symm
      rw [getElem?_clear, if_neg notHeld]
  | released i number asked => exact ⟨rfl, fun outright => absurd asked (outright i)⟩
  | moving instances _ => exact ⟨rfl, fun _ i _ => rfl⟩

variable [Scalar α]

def added (s : Session α) (operation : Operation α) : List Nat :=
  match s.worker operation with
  | some b => List.replicate ((s.perform operation).1.assets.size - s.assets.size) b
  | none => []

/-- The builder of each asset that operations return, by the number of the asset. -/
def makers (s : Session α) : List (Operation α) → List Nat
  | [] => []
  | operation :: later => s.added operation ++ makers (s.perform operation).1 later

theorem kept_perform {known : List Nat} {s : Session α} (kept : Kept known s) (operation : Operation α) :
    Kept (known ++ s.added operation) (s.perform operation).1 := by
  have changed := s.change_perform operation
  rw [added]
  generalize (s.perform operation).1 = next at changed
  have nothing (size : next.assets.size = s.assets.size) :
      (match s.worker operation with
        | some b => List.replicate (next.assets.size - s.assets.size) b
        | none => []) = [] := by
    rw [size, Nat.sub_self]
    split <;> rfl
  cases changed with
  | given b assets works whole =>
      rw [works, size_installAll, Nat.add_sub_cancel_left]
      exact (kept.installAll (worker_lt works) whole).1
  | cleared b works =>
      rw [nothing (s.size_clear b), List.append_nil]
      exact kept.clear b
  | released _ number _ =>
      rw [nothing (by simp [Session.release]), List.append_nil]
      exact kept.release number
  | moving instances _ =>
      rw [nothing rfl, List.append_nil]
      exact ⟨kept.each, kept.live, kept.held, kept.whole⟩

theorem kept_run {known : List Nat} {s : Session α} (kept : Kept known s) (operations : List (Operation α)) :
    Kept (known ++ s.makers operations) (s.run operations) := by
  induction operations generalizing known s with
  | nil => simpa [makers, run] using kept
  | cons operation later ih =>
      have next := ih (kept_perform kept operation)
      rwa [List.append_assoc] at next

/-- How assets live and go, whatever has been carried out before. `makers` are the builders of the assets. -/
structure Governed (makers : List Nat) (s : Session α) : Prop where
  current : ∀ (i : Nat) (a : Asset α), s.assets[i]? = some a →
    ∃ b, makers[i]? = some b ∧ (a.isDisposed = false → s.held b = some i)
  buffers : ∀ (i : Nat) (a : Asset α), s.assets[i]? = some a →
    (a.mesh? = none ↔ a.isDisposed = true) ∧
      (a.skeleton?.isSome = true ↔ a.isDisposed = false ∧ a.mode = .skinned)
  final : ∀ (later : List (Operation α)) (i : Nat) (a : Asset α), s.assets[i]? = some a → a.isDisposed = true →
    (s.run later).assets[i]? = some a
  /-- Nothing that is not asked of a builder changes what it holds, and only an outright release takes its assets. -/
  apart : ∀ (operation : Operation α) (b : Nat), s.worker operation ≠ some b →
    (s.perform operation).1.held b = s.held b ∧
      ((∀ i, operation ≠ .dispose i) →
        ∀ i : Nat, makers[i]? = some b → (s.perform operation).1.assets[i]? = s.assets[i]?)
  failing : ∀ (operation : Operation α) (fault : Fault α), (s.perform operation).2 = .error fault →
    (∀ b p g initiator n draws, operation ≠ .grow b p g initiator n draws) → (s.perform operation).1 = s
  growing : ∀ (b : Int) (p : TreeParams α) (g : Grammar) (initiator : Text) (n : Int) (draws : Option Nat),
    ∃ drawn, drawn <+: g.history initiator n.toNat ∧ (∀ word ∈ drawn, ∃ a, Asset.build p word = .ok a) ∧
      (s.perform (.grow b p g initiator n draws)).1 = s.run (drawn.map (Operation.build b p))

theorem one_live_asset (builders : Nat) (settings : BoneSway α) (operations : List (Operation α)) :
    Governed ((start builders settings).makers operations) ((start builders settings).run operations) := by
  have kept := kept_run (kept_start builders settings) operations
  rw [List.nil_append] at kept
  refine ⟨?_, ?_, ?_, ?_, fun _ _ => perform_error, grow_run _⟩
  · intro i a found
    have inside := (Array.getElem?_eq_some_iff.mp found).1
    rw [← kept.each] at inside
    refine ⟨_, List.getElem?_eq_getElem inside, fun alive => ?_⟩
    exact kept.live i a _ found alive (List.getElem?_eq_getElem inside)
  · intro i a found
    refine ⟨Asset.mesh?_eq_none_iff, ?_⟩
    cases gone : a.isDisposed with
    | false =>
        have whole := kept.whole i a found gone
        rw [whole.2, eq_self_iff_true, true_and]
    | true =>
        rw [← Asset.dispose_of_isDisposed gone]
        simp [Asset.skeleton?, Asset.dispose]
  · intro later i a found gone
    have stays := stays_run _ later i a found
    rw [Asset.dispose_of_isDisposed gone] at stays
    exact stays.elim id id
  · intro operation b other
    exact change_apart kept (change_perform _ operation) other

/-- A skinned tree is moved and then released, while another builder keeps its own. -/
def releasing : List (Operation Float) :=
  [.build 0 { TreeParams.standard with mode := .skinned, radialSegments := 3 } ['f'],
    .build 1 TreeParams.standard [], .addInstance 0 0, .dispose 0]

set_option maxRecDepth 10000 in
theorem one_live_asset_releasing :
    ∃ a, ((start 2 BoneSway.standard).run releasing).assets[1]? = some a ∧ a.isDisposed = false ∧
      ((start 2 BoneSway.standard).makers releasing)[1]? = some 1 ∧
      ((start 2 BoneSway.standard).run releasing).held 1 = some 1 := by
  have governed := one_live_asset 2 BoneSway.standard releasing
  obtain ⟨a, found, alive⟩ : ∃ a, ((start 2 BoneSway.standard).run releasing).assets[1]? = some a ∧
      a.isDisposed = false := ⟨_, by rfl, by rfl⟩
  obtain ⟨b, made, holds⟩ := governed.current 1 a found
  have second : ((start 2 BoneSway.standard).makers releasing)[1]? = some 1 := by decide
  rw [second, Option.some.injEq] at made
  subst made
  exact ⟨a, found, alive, second, holds alive⟩

end Session

end Arbor
