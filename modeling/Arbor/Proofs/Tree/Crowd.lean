import Arbor.Proofs.Tree.Planting
import Arbor.Proofs.Tree.Refusal

namespace Arbor

namespace Session

variable {α : Type} [Scalar α]

def Built (s : Session α) : Prop :=
  ∀ (i : Nat) (a : Asset α), s.assets[i]? = some a → a.isDisposed = false → ∃ p word, Asset.build p word = .ok a

theorem built_start (builders : Nat) (settings : BoneSway α) : Built (start builders settings) := by
  intro i a found
  simp [start] at found

variable {s : Session α}

theorem Built.release (built : Built s) (i : Nat) : Built (s.release i) := by
  intro j a found alive
  rw [getElem?_release] at found
  exact built j a (alive_of_dispose found alive).2 alive

theorem Built.clear (built : Built s) (b : Nat) : Built (s.clear b) := by
  intro j a found alive
  rw [getElem?_clear] at found
  exact built j a (alive_of_dispose found alive).2 alive

theorem Built.keep (built : Built s) (b : Nat) {outcome : Except (Fault α) (Asset α)}
    (made : ∀ a, outcome = .ok a → ∃ p word, Asset.build p word = .ok a) : Built (s.keep b outcome).1 := by
  cases outcome with
  | error fault => exact built
  | ok a =>
      intro j x found alive
      simp only [Session.keep, getElem?_install] at found
      by_cases last : j = s.assets.size
      · rw [if_pos last, Option.some.injEq] at found
        exact found ▸ made a rfl
      · rw [if_neg last] at found
        exact built.clear b j x found alive

theorem built_atBuilder (built : Built s) {β : Type} (b : Int) (answer : β → Answer α)
    {act : Nat → Session α × Except (Fault α) β} (acts : ∀ k, Built (act k).1) :
    Built (s.atBuilder b answer act).1 := by
  unfold atBuilder
  split
  · exact built
  · rename_i k _
    have next := acts k
    generalize act k = outcome at next
    obtain ⟨after, answered⟩ := outcome
    cases answered <;> exact next

theorem built_build (built : Built s) (b : Int) (p : TreeParams α) (word : Text) :
    Built (s.perform (.build b p word)).1 :=
  built_atBuilder built b _ fun k => built.keep k fun _ made => ⟨p, word, made⟩

theorem built_perform (built : Built s) (operation : Operation α) : Built (s.perform operation).1 := by
  cases operation with
  | build b p word => exact built_build built b p word
  | buildGrammar b p g initiator n =>
      refine built_atBuilder built b _ fun k => built.keep k fun a made => ?_
      obtain ⟨word, drawn⟩ := Asset.buildGrammar_eq_ok made
      exact ⟨p, word, drawn⟩
  | grow b p g initiator n draws =>
      obtain ⟨drawn, -, -, same⟩ := s.grow_run b p g initiator n draws
      rw [same]
      clear same
      induction drawn generalizing s with
      | nil => exact built
      | cons word drawn ih => exact ih (built_build built b p word)
  | clear b => exact built_atBuilder built b _ fun k => built.clear k
  | dispose i =>
      rw [perform]
      split
      · exact built.release _
      · exact built
  | addInstance i phase =>
      rw [perform]
      split
      · rename_i next added
        obtain ⟨number, a, -, -, rfl⟩ := addInstance_eq_ok added
        exact built
      · exact built
  | clearInstances => exact built
  | sway | builderSway | animate | posed => exact built

theorem built_run (built : Built s) (operations : List (Operation α)) : Built (s.run operations) := by
  induction operations generalizing s with
  | nil => exact built
  | cons operation later ih => exact ih (built_perform built operation)

omit [Scalar α] in
theorem found_of_asset {i : Nat} {a : Asset α} (found : s.asset i = .ok a) : s.assets[i]? = some a := by
  unfold asset atPlace at found
  by_cases inside : i < s.assets.size
  · rw [place?_of_lt inside, Option.bind_some] at found
    split at found
    · rename_i b present
      cases found
      exact present
    · cases found
  · have outside : place? s.assets.size (i : Int) = none := if_neg (by omega)
    rw [outside] at found
    cases found

omit [Scalar α] in
theorem skeleton?_of_requireSkeleton {a : Asset α} {skeleton : Skeleton α}
    (found : a.requireSkeleton = .ok skeleton) : a.skeleton? = some skeleton := by
  unfold Asset.requireSkeleton at found
  split at found
  · rename_i other present
    cases found
    exact present
  · cases found

omit [Scalar α] in
theorem alive_of_skeleton? {a : Asset α} {skeleton : Skeleton α} (bones : a.skeleton? = some skeleton) :
    a.isDisposed = false := by
  cases gone : a.isDisposed with
  | false => rfl
  | true =>
      rw [← Asset.dispose_of_isDisposed gone] at bones
      cases bones

theorem Built.of_member (built : Built s) (moves : Moves s) {x : Instance α} (member : x ∈ s.instances) {a : Asset α}
    (found : s.assets[x.asset]? = some a) (alive : a.isDisposed = false) :
    a.mode = .skinned ∧ ∃ p word, Asset.build p word = .ok a := by
  obtain ⟨b, same, skins⟩ := moves x member
  rw [found, Option.some.injEq] at same
  subst same
  exact ⟨skins, built _ a found alive⟩

def Turns (s : Session α) (time : α) (wind : Wind α) (x : Instance α) (rows : List (Vec3 α)) : Prop :=
  ∃ a skeleton, s.assets[x.asset]? = some a ∧ a.skeleton? = some skeleton ∧
    s.settings.turns skeleton.radii time wind x.phase = .ok rows

theorem turns_of_animate {time : α} {wind : Wind α} {turned : List (List (Vec3 α))}
    (animated : s.animate time wind = .ok turned) : List.Forall₂ (s.Turns time wind) s.instances turned := by
  rw [animate] at animated
  split at animated
  · rename_i idle
    cases animated
    rw [List.isEmpty_iff.mp idle]
    exact .nil
  · obtain ⟨_, -, animated⟩ := Outcome.bind_eq_ok animated
    refine (Outcome.forall₂_of_mapM animated).imp ?_
    intro x rows turned
    obtain ⟨a, found, turned⟩ := Outcome.bind_eq_ok turned
    obtain ⟨skeleton, bones, turned⟩ := Outcome.bind_eq_ok turned
    exact ⟨a, skeleton, found_of_asset found, skeleton?_of_requireSkeleton bones, turned⟩

theorem exists_animate (built : Built s) (moves : Moves s)
    (alive : ∀ x ∈ s.instances, ∃ a, s.assets[x.asset]? = some a ∧ a.isDisposed = false) (time : α) {wind : Wind α}
    (valid : wind.validate = .ok ()) : ∃ turned, s.animate time wind = .ok turned := by
  rw [animate]
  split
  · exact ⟨_, rfl⟩
  · have each : ∀ x ∈ s.instances, ∃ rows, (do
        s.settings.turns (← (← s.asset x.asset).requireSkeleton).radii time wind x.phase) = .ok rows := by
      intro x member
      obtain ⟨a, found, held⟩ := alive x member
      obtain ⟨skins, p, word, made⟩ := built.of_member moves member found held
      obtain ⟨skeleton, bones⟩ := Asset.requireSkeleton_of_whole (Asset.whole_build made) skins
      obtain ⟨rows, turned, -⟩ := s.settings.length_turns skeleton.radii time x.phase (Wind.usable_iff.mp valid)
      exact ⟨rows, by rw [asset_of_found found, Outcome.ok_bind, bones, Outcome.ok_bind, turned]⟩
    obtain ⟨turned, moved, -⟩ := Outcome.mapM_of_each each
    exact ⟨turned, by rw [valid, Outcome.ok_bind, moved]⟩

/-- The turns and the poses of all trees that the animator moves, in order, each tree where it has been planted. -/
structure Steady (s : Session ℝ) (wind : Wind ℝ) (turns poses : List (List (Vec3 ℝ))) : Prop where
  turned : turns.length = s.instances.length
  posed : poses.length = s.instances.length
  stands : ∀ (k : Nat) x rows posed, s.instances[k]? = some x → turns[k]? = some rows → poses[k]? = some posed →
    ∃ a, s.assets[x.asset]? = some a ∧ a.Stands s.settings wind rows posed

theorem steady_of_animate {s : Session ℝ} (built : Built s) (moves : Moves s) {time : ℝ} {wind : Wind ℝ}
    {turned : List (List (Vec3 ℝ))} (animated : s.animate time wind = .ok turned) :
    ∃ poses, s.posed time wind = .ok poses ∧ s.Steady wind turned poses := by
  obtain ⟨length, turns⟩ := List.forall₂_iff_zip.mp (turns_of_animate animated)
  have each : ∀ entry ∈ s.instances.zip turned, ∃ posed, (do
      let a ← s.asset entry.1.asset
      let mesh ← a.requireMesh
      (← a.requireSkeleton).skin mesh (some entry.2)) = .ok posed ∧
        ∃ a, s.assets[entry.1.asset]? = some a ∧ a.Stands s.settings wind entry.2 posed := by
    rintro ⟨x, rows⟩ member
    obtain ⟨a, skeleton, found, bones, turned⟩ := turns member
    obtain ⟨skins, p, word, made⟩ :=
      built.of_member moves (List.of_mem_zip member).1 found (alive_of_skeleton? bones)
    obtain ⟨posed, stands⟩ := Asset.stands_of_turns made skins bones turned
    obtain ⟨root, mesh, other, -, held, same, -, -, planted⟩ := stands.planted
    refine ⟨posed, ?_, a, found, stands⟩
    rw [asset_of_found found, Outcome.ok_bind, Asset.requireMesh_of_held held, Outcome.ok_bind, Asset.requireSkeleton,
      same, Outcome.ok_bind, planted.follows]
  obtain ⟨poses, followed, stands⟩ := Outcome.mapM_relates each
  have zipped : (s.instances.zip turned).length = s.instances.length := by
    rw [List.length_zip, ← length, Nat.min_self]
  refine ⟨poses, by rw [posed, animated, Outcome.ok_bind, ← followed], length.symm, ?_, ?_⟩
  · rw [← stands.length_eq, zipped]
  · intro k x rows posed moving turned here
    obtain ⟨entry, pair, a, found, stands⟩ := Outcome.related_of_getElem? stands here
    obtain ⟨first, second⟩ := List.getElem?_zip_eq_some.mp pair
    rw [moving, Option.some.injEq] at first
    rw [turned, Option.some.injEq] at second
    exact ⟨a, first ▸ found, second ▸ stands⟩

/-- In exact arithmetic a skinned tree sways in every wind that passes, and stays planted where it was built: its root
is not turned, what hangs on the root alone stays where it is, and nothing moves where the wind has no strength, or none
that counts, or where nothing bends. So do all the trees that an animator moves, whatever has been carried out before
and whatever their phases. It moves them all as long as they are there. -/
theorem tree_planted :
    (∀ (p : TreeParams ℝ) (word : Text) (a : Asset ℝ), Asset.build p word = .ok a → a.mode = .skinned →
      ∀ wind : Wind ℝ, wind.validate = .ok () → ∀ (time : ℝ) (settings : SwaySettings ℝ) (phase : ℝ),
        ∃ rows posed, a.sway time wind settings phase = .ok rows ∧ a.Stands settings.bone wind rows posed) ∧
    ∀ (builders : Nat) (settings : BoneSway ℝ) (operations : List (Operation ℝ)) (time : ℝ) (wind : Wind ℝ),
      let s := (start builders settings).run operations
      (∀ turned, s.animate time wind = .ok turned → ∃ poses, s.posed time wind = .ok poses ∧ s.Steady wind turned poses) ∧
      (wind.validate = .ok () → (∀ x ∈ s.instances, ∃ a, s.assets[x.asset]? = some a ∧ a.isDisposed = false) →
        ∃ turned, s.animate time wind = .ok turned) := by
  refine ⟨?_, ?_⟩
  · intro p word a made skins wind valid time settings phase
    obtain ⟨skeleton, present⟩ := Asset.requireSkeleton_of_whole (Asset.whole_build made) skins
    have bones := skeleton?_of_requireSkeleton present
    have usable := Wind.usable_iff.mp valid
    obtain ⟨mesh, held, -⟩ := Asset.movable_of_build made
    obtain ⟨rows, turned, -⟩ := settings.bone.length_turns skeleton.radii time phase usable
    obtain ⟨posed, stands⟩ := Asset.stands_of_turns made skins bones turned
    exact ⟨rows, posed, (Asset.sway_of_bending held usable skins bones).trans turned, stands⟩
  · intro builders settings operations time wind s
    have built : Built s := built_run (built_start builders settings) operations
    have moves : Moves s := moves_run (fun x member => by cases member) operations
    exact ⟨fun turned animated => steady_of_animate built moves animated,
      fun valid alive => exists_animate built moves alive time valid⟩

theorem tree_planted_sapling :
    let planting : List (Operation ℝ) := [.build 0 TreeParams.sapling ['f', 'f'], .addInstance 0 1]
    let s := (start 1 BoneSway.standard).run planting
    ∃ a : Asset ℝ, Asset.build TreeParams.sapling ['f', 'f'] = .ok a ∧ a.mode = .skinned ∧
      (Wind.standard : Wind ℝ).validate = .ok () ∧
      (∃ rows posed, a.sway 0 Wind.standard SwaySettings.standard 0 = .ok rows ∧
        a.Stands BoneSway.standard Wind.standard rows posed) ∧
      s.instances = [⟨0, 1⟩] ∧
      ∃ turned poses, s.animate 0 Wind.standard = .ok turned ∧ s.Steady Wind.standard turned poses := by
  intro planting s
  have fits : TreeParams.sapling.Fits ['f', 'f'] :=
    ⟨fun _ => by decide, fun _ => by decide, fun _ => by decide⟩
  obtain ⟨a, made⟩ := Asset.exists_of_fits positiveApart_real TreeParams.usable_sapling fits
  have skins : a.mode = .skinned := Asset.mode_of_build made
  have alive := (Asset.whole_build made).1
  have valid : (Wind.standard : Wind ℝ).validate = .ok () :=
    Wind.usable_iff.mpr ⟨fun _ _ => rfl, 1, 0, 0, rfl, fun calm => one_ne_zero (of_decide_eq_true calm.1)⟩
  obtain ⟨single, crowd⟩ := tree_planted
  obtain ⟨steady, moves⟩ := crowd 1 BoneSway.standard planting 0 Wind.standard
  obtain ⟨mesh, held, -⟩ := Asset.movable_of_build made
  have first : ((start 1 BoneSway.standard).perform (.build 0 TreeParams.sapling ['f', 'f'])).1 =
      (start 1 BoneSway.standard).install 0 a := by
    have found : (start 1 BoneSway.standard : Session ℝ).builder 0 = .ok 0 := rfl
    simp only [perform, atBuilder, found, keep, made]
  have second : ((start 1 BoneSway.standard).install 0 a).addInstance 0 1 =
      .ok { (start 1 BoneSway.standard).install 0 a with instances := [⟨0, 1⟩] } := by
    have found : ((start 1 BoneSway.standard).install 0 a).asset 0 = .ok a := rfl
    rw [addInstance, found, Outcome.ok_bind, if_neg (not_not.mpr skins), Asset.requireMesh_of_held held]
    rfl
  have reached : (start 1 BoneSway.standard).run planting =
      { (start 1 BoneSway.standard).install 0 a with instances := [⟨0, 1⟩] } := by
    rw [run_cons, first, run_cons]
    simp only [perform, second]
    rfl
  refine ⟨a, made, skins, valid, single _ _ a made skins _ valid 0 SwaySettings.standard 0,
    congrArg Session.instances reached, ?_⟩
  obtain ⟨turned, animated⟩ := moves valid (by
    rw [reached]
    intro x member
    rcases List.mem_singleton.mp member with rfl
    exact ⟨a, rfl, alive⟩)
  obtain ⟨poses, -, keeps⟩ := steady turned animated
  exact ⟨turned, poses, animated, keeps⟩

end Session

end Arbor
