import Arbor.Proofs.Tree.Custody
import Arbor.Proofs.Wind.Checking

/-!
# Refusal

A released asset cannot be swayed, and asking for it changes nothing. Where the animator still moves it, what stops the
animator is the skeleton that is gone: the release itself is not looked at.
-/

namespace Arbor

namespace Asset

variable {α : Type} {a : Asset α}

theorem requireMesh_of_isDisposed (gone : a.isDisposed = true) : a.requireMesh = .error .disposed := by
  rw [requireMesh, mesh?_eq_none_iff.mpr gone]

theorem requireSkeleton_of_isDisposed (gone : a.isDisposed = true) : a.requireSkeleton = .error .noSkeleton := by
  rw [← dispose_of_isDisposed gone]
  rfl

theorem requireSkeleton_of_whole (whole : a.Whole) (skins : a.mode = .skinned) :
    ∃ skeleton, a.requireSkeleton = .ok skeleton := by
  obtain ⟨skeleton, present⟩ := Option.isSome_iff_exists.mp (whole.2.mpr skins)
  exact ⟨skeleton, by rw [requireSkeleton, present]⟩

end Asset

namespace Session

variable {α : Type}

theorem asset_of_place {s : Session α} {j : Int} {i : Nat} {a : Asset α} (place : place? s.assets.size j = some i)
    (found : s.assets[i]? = some a) : s.asset j = .ok a := by
  rw [asset, atPlace, place, Option.bind_some, found]

theorem asset_of_found {s : Session α} {i : Nat} {a : Asset α} (found : s.assets[i]? = some a) :
    s.asset i = .ok a :=
  asset_of_place (place?_of_lt (Array.getElem?_eq_some_iff.mp found).1) found

def Moves (s : Session α) : Prop :=
  ∀ x ∈ s.instances, ∃ a, s.assets[x.asset]? = some a ∧ a.mode = .skinned

@[simp] theorem instances_clear (s : Session α) (b : Nat) : (s.clear b).instances = s.instances := by
  cases holds : s.held b with
  | none => rw [s.clear_of_empty holds]
  | some i => rw [s.clear_of_held holds, release]

theorem instances_installAll (s : Session α) (b : Nat) (assets : List (Asset α)) :
    (s.installAll b assets).instances = s.instances := by
  induction assets generalizing s with
  | nil => rfl
  | cons a assets ih => rw [installAll_cons, ih, install, instances_clear]

theorem moves_change {s next : Session α} {operation : Operation α} (moves : Moves s)
    (changed : Change s operation next) : Moves next := by
  have stays := stays_change changed
  have remains {i : Nat} (present : ∃ a, s.assets[i]? = some a ∧ a.mode = .skinned) :
      ∃ a, next.assets[i]? = some a ∧ a.mode = .skinned := by
    obtain ⟨a, found, skins⟩ := present
    rcases stays i a found with same | gone
    · exact ⟨a, same, skins⟩
    · exact ⟨a.dispose, gone, skins⟩
  intro x member
  refine remains ?_
  cases changed with
  | given b assets _ _ =>
      rw [instances_installAll] at member
      exact moves x member
  | cleared b _ =>
      rw [instances_clear] at member
      exact moves x member
  | released _ number _ => exact moves x member
  | moving instances skinned =>
      rcases skinned x member with old | new
      · exact moves x old
      · exact new

variable [Scalar α]

theorem moves_run {s : Session α} (moves : Moves s) (operations : List (Operation α)) :
    Moves (s.run operations) := by
  induction operations generalizing s with
  | nil => exact moves
  | cons operation later ih => exact ih (moves_change moves (s.change_perform operation))

/-- The trees before a released one still turn, so it is the released one that stops the animator. -/
theorem animate_of_disposed {makers : List Nat} {s : Session α} (kept : Kept makers s) (moves : Moves s)
    {x : Instance α} (member : x ∈ s.instances) {a : Asset α} (found : s.assets[x.asset]? = some a)
    (gone : a.isDisposed = true) {time : α} {wind : Wind α} (valid : wind.validate = .ok ()) :
    s.animate time wind = .error .noSkeleton := by
  obtain ⟨direction, checked⟩ := Wind.exists_checked (Wind.usable_iff.mp valid)
  have busy : s.instances.isEmpty = false := by
    rw [List.isEmpty_eq_false_iff]
    exact List.ne_nil_of_mem member
  rw [animate, busy, if_neg Bool.false_ne_true, valid, Outcome.ok_bind]
  refine Outcome.mapM_eq_error ?_ member ?_
  · intro y inside
    obtain ⟨b, present, skins⟩ := moves y inside
    rw [asset_of_found present, Outcome.ok_bind]
    cases released : b.isDisposed with
    | true => exact .inr (by rw [Asset.requireSkeleton_of_isDisposed released, Outcome.error_bind])
    | false =>
        obtain ⟨skeleton, bones⟩ := Asset.requireSkeleton_of_whole (kept.whole _ b present released) skins
        rw [bones, Outcome.ok_bind, BoneSway.turns, checked]
        exact .inl ⟨_, rfl⟩
  · rw [asset_of_found found, Outcome.ok_bind, Asset.requireSkeleton_of_isDisposed gone, Outcome.error_bind]

/-- What an asset answers that has been released: nothing that sways it goes through, and nothing changes. -/
structure Refuses (s : Session α) (i : Nat) (mode : Mode) (time : α) (wind : Wind α) : Prop where
  sway : ∀ (j : Int) (settings : SwaySettings α) (phase : α), place? s.assets.size j = some i →
    s.perform (.sway j time wind settings phase) = (s, .error .disposed)
  chosen : ∀ (b j : Int) (settings : SwaySettings α) (phase : α), place? s.assets.size j = some i →
    s.perform (.builderSway b (some j) time wind settings phase) = (s, .error .disposed)
  held : ∀ (b : Int) (k : Nat) (settings : SwaySettings α) (phase : α), s.builder b = .ok k → s.held k = some i →
    s.perform (.builderSway b none time wind settings phase) = (s, .error .disposed)
  adding : ∀ (j : Int) (phase : α), place? s.assets.size j = some i → mode = .skinned →
    s.perform (.addInstance j phase) = (s, .error .disposed)
  /-- The animator stops too, but for want of a skeleton. -/
  animate : (∃ x ∈ s.instances, x.asset = i) → wind.validate = .ok () →
    s.perform (.animate time wind) = (s, .error .noSkeleton) ∧ s.perform (.posed time wind) = (s, .error .noSkeleton)

theorem disposed_refused (builders : Nat) (settings : BoneSway α) (operations : List (Operation α)) {i : Nat}
    {a : Asset α} (found : ((start builders settings).run operations).assets[i]? = some a)
    (gone : a.isDisposed = true) (time : α) (wind : Wind α) :
    Refuses ((start builders settings).run operations) i a.mode time wind := by
  have kept := kept_run (kept_start builders settings) operations
  have moves : Moves ((start builders settings).run operations) :=
    moves_run (fun x member => by cases member) operations
  generalize (start builders settings).run operations = s at found kept moves
  have refused := Asset.requireMesh_of_isDisposed gone
  refine ⟨?_, ?_, ?_, ?_, ?_⟩
  · intro j settings phase place
    rw [perform, answered, asset_of_place place found, Outcome.ok_bind, Asset.sway, refused]
    rfl
  · intro b j settings phase place
    rw [perform, answered, chosen, asset_of_place place found, Outcome.ok_bind, Asset.sway, refused]
    rfl
  · intro b k settings phase named holds
    rw [perform, answered, chosen, named, Outcome.ok_bind, holds]
    dsimp only
    rw [asset_of_found found, Outcome.ok_bind, Asset.sway, refused]
    rfl
  · intro j phase place skins
    rw [perform, addInstance, asset_of_place place found, Outcome.ok_bind, if_neg (not_not.mpr skins), refused]
    rfl
  · rintro ⟨x, member, rfl⟩ valid
    have stopped : s.animate time wind = .error .noSkeleton := animate_of_disposed kept moves member found gone valid
    refine ⟨?_, ?_⟩
    · rw [perform, answered, stopped, Outcome.error_bind]
    · rw [perform, answered, posed, stopped, Outcome.error_bind, Outcome.error_bind]

/-- A skinned tree that the animator moves, released behind its back. -/
def forsaking : List (Operation Float) :=
  [.build 0 { TreeParams.standard with mode := .skinned, radialSegments := 3 } ['f'], .addInstance 0 0, .dispose 0]

set_option maxRecDepth 10000 in
theorem disposed_refused_forsaking :
    ∃ a, ((start 1 BoneSway.standard).run forsaking).assets[0]? = some a ∧ a.isDisposed = true ∧
      Refuses ((start 1 BoneSway.standard).run forsaking) 0 a.mode 0 Wind.standard := by
  obtain ⟨a, found, gone⟩ : ∃ a, ((start 1 BoneSway.standard).run forsaking).assets[0]? = some a ∧
      a.isDisposed = true := ⟨_, by rfl, by rfl⟩
  exact ⟨a, found, gone, disposed_refused 1 BoneSway.standard forsaking found gone 0 Wind.standard⟩

set_option maxRecDepth 10000 in
/-- The animator does not say that the tree has been released. -/
theorem forsaken_unnamed :
    (((start 1 BoneSway.standard).run forsaking).perform (.animate 0 Wind.standard)).2 = .error .noSkeleton ∧
      (Fault.noSkeleton : Fault Float).kind ≠ .disposed :=
  ⟨by rfl, by decide⟩

end Session

end Arbor
