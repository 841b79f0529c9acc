import Arbor.Proofs.Tree.Change

/-!
# Growing and failing

A growth is a run of builds, so a growth that other operations interrupt is a run in which they stand between its builds.
Anything else that fails leaves the session as it was, and so does the build that ends a growth.
-/

namespace Arbor

theorem Grammar.prefix_of_draw {α : Type} {g : Grammar} {initiator : Text} {n : Int} {draws : Option Nat}
    {words : List Text} (drawn : g.draw (α := α) initiator n draws = .ok words) :
    words <+: g.history initiator n.toNat := by
  have counted {k : Nat} (made : generations (α := α) n = .ok k) : k = n.toNat := by
    unfold generations at made
    split at made
    · cases made
    · cases made
      rfl
  match draws with
  | none =>
      obtain ⟨k, made, same⟩ := Outcome.bind_eq_ok drawn
      cases same
      obtain rfl := counted made
      exact List.prefix_rfl
  | some 0 =>
      cases drawn
      exact List.nil_prefix
  | some (taken + 1) =>
      obtain ⟨k, made, same⟩ := Outcome.bind_eq_ok drawn
      cases same
      rw [counted made, ← take_history]
      exact List.take_prefix _ _

namespace Session

variable {α : Type} [Scalar α]

theorem installAll_run {b : Int} {k : Nat} {p : TreeParams α} {drawn : List Text} {assets : List (Asset α)}
    (each : List.Forall₂ (fun word a => Asset.build p word = .ok a) drawn assets) {s : Session α}
    (found : s.builder b = .ok k) : s.installAll k assets = s.run (drawn.map (Operation.build b p)) := by
  induction each generalizing s with
  | nil => rfl
  | @cons word a drawn assets built _ ih =>
      have performed : (s.perform (.build b p word)).1 = s.install k a := by
        simp only [perform, atBuilder, found, keep, built]
      have same : (s.install k a).builder b = .ok k := by
        rw [builder, size_current_install]
        exact found
      rw [installAll_cons, List.map_cons, run_cons, performed, ih same]

theorem perform_grow {s : Session α} {b : Int} {k : Nat} (found : s.builder b = .ok k) {p : TreeParams α} {g : Grammar}
    {initiator : Text} {n : Int} {draws : Option Nat} {words : List Text}
    (chosen : drawnWords p g initiator n draws = .ok words) :
    s.perform (.grow b p g initiator n draws) = ((s.keepAll k p words).1, (s.keepAll k p words).2.map Answer.grown) := by
  simp only [perform, atBuilder, found, chosen]
  cases s.keepAll k p words with
  | mk next answer => cases answer <;> rfl

theorem perform_grow_error {s : Session α} {b : Int} {k : Nat} (found : s.builder b = .ok k) {p : TreeParams α}
    {g : Grammar} {initiator : Text} {n : Int} {draws : Option Nat} {fault : Fault α}
    (refused : drawnWords p g initiator n draws = .error fault) :
    s.perform (.grow b p g initiator n draws) = (s, .error fault) := by
  simp only [perform, atBuilder, found, refused]

theorem grow_run (s : Session α) (b : Int) (p : TreeParams α) (g : Grammar) (initiator : Text) (n : Int)
    (draws : Option Nat) :
    ∃ drawn, drawn <+: g.history initiator n.toNat ∧ (∀ word ∈ drawn, ∃ a, Asset.build p word = .ok a) ∧
      (s.perform (.grow b p g initiator n draws)).1 = s.run (drawn.map (Operation.build b p)) := by
  have nothing : ∃ drawn, drawn <+: g.history initiator n.toNat ∧ (∀ word ∈ drawn, ∃ a, Asset.build p word = .ok a) ∧
      s = s.run (drawn.map (Operation.build b p)) := by
    refine ⟨[], List.nil_prefix, ?_, rfl⟩
    intro word member
    cases member
  cases found : s.builder b with
  | error fault =>
      simp only [perform, atBuilder, found]
      exact nothing
  | ok k =>
      cases chosen : drawnWords p g initiator n draws with
      | error fault =>
          rw [perform_grow_error found chosen]
          exact nothing
      | ok words =>
          have begins : words <+: g.history initiator n.toNat := by
            unfold drawnWords at chosen
            split at chosen
            · cases chosen
              exact List.nil_prefix
            · obtain ⟨_, -, drawn⟩ := Outcome.bind_eq_ok chosen
              exact Grammar.prefix_of_draw drawn
          obtain ⟨drawn, -, each, kept, -⟩ := s.keepAll_eq k p words
          refine ⟨words.take drawn.length, (List.take_prefix _ _).trans begins, ?_, ?_⟩
          · intro word member
            obtain ⟨entry, -, built⟩ := Outcome.related_of_mem each.flip member
            exact ⟨entry.2, built⟩
          · have assets : List.Forall₂ (fun word a => Asset.build p word = .ok a) (words.take drawn.length)
                (drawn.map Prod.snd) := List.forall₂_map_right_iff.mpr each
            rw [← installAll_run assets found, ← kept, perform_grow found chosen]

omit [Scalar α] in
theorem atBuilder_error {β : Type} {s : Session α} {b : Int} {answer : β → Answer α}
    {act : Nat → Session α × Except (Fault α) β} {fault : Fault α}
    (kept : ∀ k fault, (act k).2 = .error fault → (act k).1 = s)
    (failed : (s.atBuilder b answer act).2 = .error fault) : (s.atBuilder b answer act).1 = s := by
  unfold atBuilder at failed ⊢
  revert failed
  cases s.builder b with
  | error fault => exact fun _ => rfl
  | ok k =>
      have same := kept k
      dsimp only
      generalize act k = outcome at same ⊢
      obtain ⟨next, answered⟩ := outcome
      cases answered with
      | error fault => exact fun _ => same fault rfl
      | ok result =>
          intro failed
          cases failed

omit [Scalar α] in
theorem keep_error {s : Session α} {k : Nat} {built : Except (Fault α) (Asset α)} {fault : Fault α}
    (failed : (s.keep k built).2 = .error fault) : (s.keep k built).1 = s := by
  cases built with
  | error fault => rfl
  | ok a => cases failed

theorem perform_error {s : Session α} {operation : Operation α} {fault : Fault α}
    (failed : (s.perform operation).2 = .error fault)
    (single : ∀ b p g initiator n draws, operation ≠ .grow b p g initiator n draws) :
    (s.perform operation).1 = s := by
  cases operation with
  | build b p word => exact atBuilder_error (fun k fault => keep_error) failed
  | buildGrammar b p g initiator n => exact atBuilder_error (fun k fault => keep_error) failed
  | grow b p g initiator n draws => exact absurd rfl (single b p g initiator n draws)
  | clear b =>
      refine atBuilder_error (fun k fault cleared => ?_) failed
      cases cleared
  | dispose i =>
      simp only [perform] at failed ⊢
      split at failed
      · cases failed
      · rfl
  | addInstance i phase =>
      simp only [perform] at failed ⊢
      split at failed
      · cases failed
      · rfl
  | clearInstances => cases failed
  | sway | builderSway | animate | posed => rfl

end Session

end Arbor
