import Arbor.Proofs.Config.Description
import Arbor.Wind.VertexSway

/-!
# Finite numbers

Every number that a configuration is made of is finite, but for one that nobody looks at: the noise of its wind. It may
be anything that the configuration says, and it goes into the phase of the sway as it is.
-/

namespace Arbor

variable {α : Type} [Scalar α]

theorem Scalar.isFinite_of_ofInt? {n : Int} {x : α} (near : ofInt? n = some x) : isFinite x = true := by
  rw [ofInt?] at near
  split at near
  · rename_i finite
    cases near
    exact finite
  · cases near

omit [Scalar α] in
def TreeParams.coordinates (p : TreeParams α) : List α :=
  [p.startRadius, p.radiusReduction, p.branchLength, p.angle, p.leafRadius] ++ p.position

theorem TreeParams.finite_of_usable {p : TreeParams α} (usable : p.Usable) :
    ∀ x ∈ p.coordinates, Scalar.isFinite x = true := by
  intro x member
  rcases List.mem_append.mp member with scalar | component
  · exact usable.finite x scalar
  · exact usable.position.2 x component

namespace VertexSway

omit [Scalar α] in
/-- The noise that shifts the phase, unless it is not to be used. -/
def noiseUsed (s : VertexSway α) (noise : Option α) : Option α := if s.useNoise then noise else none

omit [Scalar α] in
/-- What the phase is made of. -/
def phaseInputs (s : VertexSway α) (time : α) (noise : Option α) : List α :=
  time :: s.speed :: (s.noiseUsed noise).toList

theorem phase_eq (s : VertexSway α) (time : α) (noise : Option α) :
    s.phase time noise = (s.noiseUsed noise).elim (time * s.speed) fun n => time * s.speed + n * Scalar.pi := by
  rw [phase.eq_def, noiseUsed]
  cases s.useNoise <;> cases noise <;> rfl

theorem finite_phaseInputs {s : VertexSway α} {time : α} {noise : Option α} :
    (∀ x ∈ s.phaseInputs time noise, Scalar.isFinite x = true) ↔
      Scalar.isFinite time = true ∧ Scalar.isFinite s.speed = true ∧
        ∀ x, s.noiseUsed noise = some x → Scalar.isFinite x = true := by
  simp only [phaseInputs, List.forall_mem_cons, Option.mem_toList]

end VertexSway

namespace TreeConfig

variable {v : Value α} {c : TreeConfig α}

theorem noise_of_described (described : Described v c) {x : α} (noise : c.wind.noise = some x) :
    Scalar.isFinite x = true ∨ v.at? ["wind", "noise_sample"] = some (.real x) := by
  obtain ⟨fields, rfl, by_⟩ := described
  obtain ⟨entries, held, wind⟩ := by_.wind
  have given := wind.noise
  rw [Value.Holds, noise] at given
  cases found : Value.field? "noise_sample" entries with
  | none =>
      rw [found] at given
      cases given
  | some item =>
      rw [found] at given
      cases given with
      | number number =>
          cases number with
          | real =>
              have winds : Value.entry fields "wind" [] (Value.toObject "wind") = .ok entries :=
                Value.entry_object.mpr held
              exact .inr (Value.at?_of_entry winds found)
          | int near => exact .inl (Scalar.isFinite_of_ofInt? near)

/-- Every number of a configuration that is read is finite, unless it is noise that the configuration gives as a number
that is not. A wind passes whatever its noise is, and so the phase of the sway is made of finite numbers just when the
noise that it uses is finite. -/
theorem numbers_finite :
    (∀ (v : Value α) (c : TreeConfig α), ofValue v = .ok c →
      (∀ x ∈ c.tree.coordinates, Scalar.isFinite x = true) ∧
        (∀ x ∈ c.wind.strength :: c.wind.direction, Scalar.isFinite x = true) ∧
          ∀ x, c.wind.noise = some x →
            Scalar.isFinite x = true ∨ v.at? ["wind", "noise_sample"] = some (.real x)) ∧
    (∀ w : Wind α, w.validate = .ok () →
      (∀ x ∈ w.strength :: w.direction, Scalar.isFinite x = true) ∧
        ∀ noise, (w.withNoise noise).validate = .ok ()) ∧
    ∀ (s : VertexSway α) (time : α) (noise : Option α), Scalar.isFinite time = true → Scalar.isFinite s.speed = true →
      (s.phase time noise =
        (s.noiseUsed noise).elim (time * s.speed) fun n => time * s.speed + n * Scalar.pi) ∧
      ((∀ x ∈ s.phaseInputs time noise, Scalar.isFinite x = true) ↔
        ∀ x, s.noiseUsed noise = some x → Scalar.isFinite x = true) := by
  refine ⟨?_, ?_, ?_⟩
  · intro v c read
    have described := ofValue_eq_ok.mp read
    obtain ⟨tree, wind⟩ := usable_of_described described
    exact ⟨TreeParams.finite_of_usable tree, wind.finite, fun x noise => noise_of_described described noise⟩
  · intro w passed
    exact ⟨(Wind.usable_iff.mp passed).finite, fun noise => passed⟩
  · intro s time noise moment speed
    refine ⟨s.phase_eq time noise, ?_⟩
    rw [VertexSway.finite_phaseInputs, and_iff_right moment, and_iff_right speed]

def noisy (noise : Float) : Value Float :=
  .object [("axiom", .text ['f']), ("wind", .object [("noise_sample", .real noise)])]

def noisyConfig (noise : Float) : TreeConfig Float :=
  ⟨"Tree", ['f'], 6, [], TreeParams.standard, Wind.standard.withNoise (some noise)⟩

theorem described_noisy (noise : Float) : Described (noisy noise) (noisyConfig noise) := by
  have trees : (TreeParams.standard : TreeParams Float).validate = .ok () := by rfl
  have winds : (Wind.standard : Wind Float).validate = .ok () := by rfl
  have usable : (noisyConfig noise).wind.Usable := Wind.usable_iff.mp winds
  refine ⟨_, rfl, rfl, List.cons_ne_nil _ _, rfl, (by decide : (0 : Int) ≤ 6), rfl, rfl, ⟨[], rfl, ?_⟩, ⟨_, rfl, ?_⟩⟩
  · exact ⟨rfl, rfl, rfl, rfl, rfl, rfl, rfl, rfl, rfl, TreeParams.usable_iff.mp trees⟩
  · exact ⟨rfl, rfl, .number (.real noise), usable⟩

theorem numbers_finite_noisy :
    ofValue (noisy 0.5) = .ok (noisyConfig 0.5) ∧
      (∀ x ∈ (noisyConfig 0.5).tree.coordinates, Scalar.isFinite x = true) ∧
      ((Wind.standard : Wind Float).withNoise (some (0 / 0))).validate = .ok () ∧
      ∀ x ∈ (VertexSway.standard : VertexSway Float).phaseInputs 2 (some 0.5), Scalar.isFinite x = true := by
  have read : ofValue (noisy 0.5) = .ok (noisyConfig 0.5) := ofValue_eq_ok.mpr (described_noisy 0.5)
  obtain ⟨configs, winds, phases⟩ := numbers_finite (α := Float)
  refine ⟨read, (configs _ _ read).1, (winds _ (by rfl)).2 _, ?_⟩
  refine (phases VertexSway.standard 2 (some 0.5) (by rfl) (by rfl)).2.mpr fun x used => ?_
  cases used
  rfl

/-- A number that is not finite passes as noise, in a configuration and in a wind. -/
theorem undefined_noise_passes :
    (¬ ∀ (v : Value Float) (c : TreeConfig Float), ofValue v = .ok c →
        ∀ x, c.wind.noise = some x → Scalar.isFinite x = true) ∧
      ¬ ∀ w : Wind Float, w.validate = .ok () → ∀ x, w.noise = some x → Scalar.isFinite x = true := by
  have undefined : Scalar.isFinite (0 / 0 : Float) ≠ true := Bool.eq_false_iff.mp (by rfl)
  constructor
  · intro configs
    exact undefined (configs _ _ (ofValue_eq_ok.mpr (described_noisy (0 / 0))) (0 / 0) rfl)
  · intro winds
    exact undefined (winds (Wind.standard.withNoise (some (0 / 0))) (by rfl) (0 / 0) rfl)

end TreeConfig

end Arbor
