import Arbor.Proofs.Outcome
import Arbor.Tree.Session

namespace Arbor

variable {α : Type}

theorem place?_lt {count : Nat} {i : Int} {k : Nat} (found : place? count i = some k) : k < count := by
  simp only [place?] at found
  generalize (if i < 0 then i + (count : Int) else i) = j at found
  split at found
  · rename_i inside
    rw [Option.some.injEq] at found
    omega
  · cases found

namespace Asset

def Whole (a : Asset α) : Prop := a.isDisposed = false ∧ (a.skeleton?.isSome = true ↔ a.mode = .skinned)

theorem dispose_of_isDisposed {a : Asset α} (gone : a.isDisposed = true) : a.dispose = a := by
  obtain ⟨params, symbols, segments, leaves, underflows, buffers⟩ := a
  cases buffers with
  | none => rfl
  | some buffers => cases gone

theorem mesh?_eq_none_iff {a : Asset α} : a.mesh? = none ↔ a.isDisposed = true := by
  rw [mesh?, Option.map_eq_none_iff, isDisposed, Option.isNone_iff_eq_none]

variable [Scalar α]

theorem whole_build {p : TreeParams α} {word : Text} {a : Asset α} (built : build p word = .ok a) : a.Whole := by
  obtain ⟨place, -, built⟩ := Outcome.bind_eq_ok built
  obtain ⟨buffers, drawn, same⟩ := Outcome.bind_eq_ok built
  cases same
  refine ⟨rfl, ?_⟩
  simp only [skeleton?, mode, Option.bind_some]
  cases skins : p.mode with
  | static =>
      rw [Buffers.ofEvents, skins] at drawn
      obtain ⟨mesh, -, same⟩ := Outcome.bind_eq_ok drawn
      cases same
      simp
  | skinned =>
      rw [Buffers.ofEvents, skins] at drawn
      obtain ⟨rigged, -, same⟩ := Outcome.bind_eq_ok drawn
      cases same
      simp

theorem buildGrammar_eq_ok {p : TreeParams α} {g : Grammar} {initiator : Text} {n : Int} {a : Asset α}
    (built : buildGrammar p g initiator n = .ok a) : ∃ word, build p word = .ok a := by
  obtain ⟨_, -, built⟩ := Outcome.bind_eq_ok built
  obtain ⟨word, -, built⟩ := Outcome.bind_eq_ok built
  exact ⟨word, built⟩

end Asset

namespace Session

section

variable (s : Session α)

theorem getElem?_release (i j : Nat) :
    (s.release i).assets[j]? = if i = j then (s.assets[j]?).map Asset.dispose else s.assets[j]? := by
  rw [release, Array.getElem?_modify]

theorem clear_of_held {b i : Nat} (holds : s.held b = some i) :
    s.clear b = { s.release i with current := s.current.setIfInBounds b none } := by
  rw [clear, holds]

theorem clear_of_empty {b : Nat} (holds : s.held b = none) : s.clear b = s := by
  rw [clear, holds]

@[simp] theorem size_clear (b : Nat) : (s.clear b).assets.size = s.assets.size := by
  cases holds : s.held b with
  | none => rw [s.clear_of_empty holds]
  | some i => simp [s.clear_of_held holds, release]

@[simp] theorem size_current_clear (b : Nat) : (s.clear b).current.size = s.current.size := by
  cases holds : s.held b with
  | none => rw [s.clear_of_empty holds]
  | some i => simp [s.clear_of_held holds]

theorem getElem?_clear (b j : Nat) :
    (s.clear b).assets[j]? = if s.held b = some j then (s.assets[j]?).map Asset.dispose else s.assets[j]? := by
  cases holds : s.held b with
  | none => rw [s.clear_of_empty holds, if_neg (by simp)]
  | some i =>
      rw [s.clear_of_held holds]
      simpa using s.getElem?_release i j

theorem held_clear (b other : Nat) : (s.clear b).held other = if other = b then none else s.held other := by
  cases holds : s.held b with
  | none =>
      rw [s.clear_of_empty holds]
      by_cases same : other = b
      · rw [if_pos same, same, holds]
      · rw [if_neg same]
  | some i =>
      rw [s.clear_of_held holds]
      simp only [held, Array.getElem?_setIfInBounds]
      by_cases same : other = b
      · subst same
        rw [if_pos rfl, if_pos rfl]
        split <;> rfl
      · rw [if_neg (Ne.symm same), if_neg same]

@[simp] theorem size_install (b : Nat) (a : Asset α) : (s.install b a).assets.size = s.assets.size + 1 := by
  simp [install]

@[simp] theorem size_current_install (b : Nat) (a : Asset α) :
    (s.install b a).current.size = s.current.size := by
  simp [install]

theorem getElem?_install (b : Nat) (a : Asset α) (j : Nat) :
    (s.install b a).assets[j]? = if j = s.assets.size then some a else (s.clear b).assets[j]? := by
  simp only [install, Array.getElem?_push, size_clear]

theorem held_install {b : Nat} (inside : b < s.current.size) (a : Asset α) (other : Nat) :
    (s.install b a).held other = if other = b then some s.assets.size else s.held other := by
  have elsewhere := s.held_clear b other
  simp only [held] at elsewhere ⊢
  simp only [install, Array.getElem?_setIfInBounds, size_clear, size_current_clear]
  by_cases same : other = b
  · subst same
    simp [inside]
  · rw [if_neg (Ne.symm same), if_neg same]
    rw [if_neg same] at elsewhere
    exact elsewhere

end

def Operation.builder? : Operation α → Option Int
  | .build b .. | .buildGrammar b .. | .grow b .. | .clear b | .builderSway b .. => some b
  | .dispose _ | .sway .. | .addInstance .. | .clearInstances | .animate .. | .posed .. => none

def worker (s : Session α) (operation : Operation α) : Option Nat :=
  operation.builder?.bind (place? s.current.size)

def installAll (s : Session α) (b : Nat) (assets : List (Asset α)) : Session α :=
  assets.foldl (fun s a => s.install b a) s

/-- What an operation can make of a session. -/
inductive Change (s : Session α) (operation : Operation α) : Session α → Prop
  | given (b : Nat) (assets : List (Asset α)) (works : s.worker operation = some b)
      (whole : ∀ a ∈ assets, a.Whole) : Change s operation (s.installAll b assets)
  | cleared (b : Nat) (works : s.worker operation = some b) : Change s operation (s.clear b)
  | released (i : Int) (number : Nat) (asked : operation = .dispose i) :
      Change s operation (s.release number)
  | moving (instances : List (Instance α))
      (skinned : ∀ x ∈ instances, x ∈ s.instances ∨ ∃ a, s.assets[x.asset]? = some a ∧ a.mode = .skinned) :
      Change s operation { s with instances := instances }

theorem worker_lt {s : Session α} {operation : Operation α} {b : Nat} (works : s.worker operation = some b) :
    b < s.current.size := by
  obtain ⟨_, -, place⟩ := Option.bind_eq_some_iff.mp works
  exact place?_lt place

theorem installAll_cons (s : Session α) (b : Nat) (a : Asset α) (assets : List (Asset α)) :
    s.installAll b (a :: assets) = (s.install b a).installAll b assets := rfl

theorem size_installAll (s : Session α) (b : Nat) (assets : List (Asset α)) :
    (s.installAll b assets).assets.size = s.assets.size + assets.length := by
  induction assets generalizing s with
  | nil => rfl
  | cons a assets ih =>
      rw [installAll_cons, ih, size_install, List.length_cons]
      omega

/-- What is there stays there, and nothing of it but its buffers can go. -/
def Stays (s next : Session α) : Prop :=
  ∀ (i : Nat) (a : Asset α), s.assets[i]? = some a →
    next.assets[i]? = some a ∨ next.assets[i]? = some a.dispose

theorem Stays.trans {first second third : Session α} (earlier : Stays first second) (later : Stays second third) :
    Stays first third := by
  intro i a found
  rcases earlier i a found with same | gone
  · exact later i a same
  · exact .inr ((later i a.dispose gone).elim id id)

theorem stays_clear (s : Session α) (b : Nat) : Stays s (s.clear b) := by
  intro i a found
  rw [getElem?_clear, found]
  split
  · exact .inr rfl
  · exact .inl rfl

theorem stays_install (s : Session α) (b : Nat) (a : Asset α) : Stays s (s.install b a) := by
  intro i x found
  have before := (Array.getElem?_eq_some_iff.mp found).1
  rw [getElem?_install, if_neg (Nat.ne_of_lt before)]
  exact s.stays_clear b i x found

theorem stays_installAll (s : Session α) (b : Nat) (assets : List (Asset α)) :
    Stays s (s.installAll b assets) := by
  induction assets generalizing s with
  | nil =>
      intro i a found
      exact .inl found
  | cons a assets ih => exact (s.stays_install b a).trans (ih (s.install b a))

theorem stays_change {s next : Session α} {operation : Operation α} (changed : Change s operation next) :
    Stays s next := by
  cases changed with
  | given b assets _ _ => exact s.stays_installAll b assets
  | cleared b _ => exact s.stays_clear b
  | released _ number _ =>
      intro i a found
      rw [getElem?_release, found]
      split
      · exact .inr rfl
      · exact .inl rfl
  | moving instances _ =>
      intro i a found
      exact .inl found

theorem change_none (s : Session α) (operation : Operation α) : Change s operation s :=
  .moving s.instances fun _ member => .inl member

theorem builder_eq_ok {s : Session α} {b : Int} {k : Nat} (found : s.builder b = .ok k) :
    place? s.current.size b = some k := by
  unfold builder at found
  split at found
  · rename_i i place
    cases found
    exact place
  · cases found

theorem addInstance_eq_ok {s next : Session α} {i : Int} {phase : α} (added : s.addInstance i phase = .ok next) :
    ∃ number a, s.assets[number]? = some a ∧ a.mode = .skinned ∧
      next = { s with instances := s.instances ++ [⟨number, phase⟩] } := by
  obtain ⟨a, found, added⟩ := Outcome.bind_eq_ok added
  by_cases skins : a.mode = .skinned
  · rw [if_neg (not_not.mpr skins)] at added
    obtain ⟨_, -, added⟩ := Outcome.bind_eq_ok added
    unfold asset atPlace at found
    cases place : place? s.assets.size i with
    | none =>
        rw [place] at found
        cases found
    | some number =>
        rw [place, Option.bind_some] at found
        rw [place] at added
        cases present : s.assets[number]? with
        | none =>
            rw [present] at found
            cases found
        | some b =>
            rw [present] at found
            cases found
            cases added
            exact ⟨number, _, present, skins, rfl⟩
  · rw [if_pos skins] at added
    cases added

theorem change_atBuilder {β : Type} {s : Session α} {operation : Operation α} {b : Int}
    (asked : operation.builder? = some b) (answer : β → Answer α)
    {act : Nat → Session α × Except (Fault α) β}
    (acts : ∀ k, s.worker operation = some k → Change s operation (act k).1) :
    Change s operation (s.atBuilder b answer act).1 := by
  unfold atBuilder
  split
  · exact change_none s operation
  · rename_i k found
    have changed := acts k (by rw [worker, asked]; exact builder_eq_ok found)
    generalize act k = outcome at changed
    obtain ⟨next, answered⟩ := outcome
    cases answered <;> exact changed

theorem change_keep {s : Session α} {operation : Operation α} {k : Nat} (works : s.worker operation = some k)
    {built : Except (Fault α) (Asset α)} (whole : ∀ a, built = .ok a → a.Whole) :
    Change s operation (s.keep k built).1 := by
  cases built with
  | error fault => exact change_none s operation
  | ok a =>
      refine .given k [a] works ?_
      intro other member
      rcases List.mem_singleton.mp member with rfl
      exact whole other rfl

variable [Scalar α]

/-- The words that are built, up to the first that cannot be, are given to the builder one after another. The answer
names them by their numbers, unless there is one that cannot be built: then it is the fault of that one. -/
theorem keepAll_eq (s : Session α) (k : Nat) (p : TreeParams α) (words : List Text) :
    ∃ drawn : List (Nat × Asset α), drawn.map Prod.fst = List.range' s.assets.size drawn.length ∧
      List.Forall₂ (fun word entry => Asset.build p word = .ok entry.2) (words.take drawn.length) drawn ∧
      (s.keepAll k p words).1 = s.installAll k (drawn.map Prod.snd) ∧
      ((drawn.length = words.length ∧ (s.keepAll k p words).2 = .ok drawn) ∨
        ∃ word fault, words[drawn.length]? = some word ∧ Asset.build p word = .error fault ∧
          (s.keepAll k p words).2 = .error fault) := by
  induction words generalizing s with
  | nil => exact ⟨[], rfl, .nil, rfl, .inl ⟨rfl, rfl⟩⟩
  | cons word words ih =>
      cases built : Asset.build p word with
      | error fault =>
          have stops : s.keepAll k p (word :: words) = (s, .error fault) := by simp only [keepAll, keep, built]
          rw [stops]
          exact ⟨[], rfl, .nil, rfl, .inr ⟨word, fault, rfl, built, rfl⟩⟩
      | ok a =>
          obtain ⟨drawn, numbers, each, rest, ends⟩ := ih (s.install k a)
          rw [size_install] at numbers
          refine ⟨(s.assets.size, a) :: drawn, ?_, .cons built each, ?_⟩
          · rw [List.map_cons, numbers, List.length_cons, List.range'_succ]
          · rw [List.map_cons, installAll_cons, ← rest]
            simp only [keepAll, keep, built]
            cases later : (s.install k a).keepAll k p words with
            | mk next answer =>
                rw [later] at ends
                rcases ends with ⟨kept, rfl⟩ | ⟨last, fault, read, failed, rfl⟩
                · exact ⟨rfl, .inl ⟨congrArg (· + 1) kept, rfl⟩⟩
                · exact ⟨rfl, .inr ⟨last, fault, read, failed, rfl⟩⟩

theorem change_perform (s : Session α) (operation : Operation α) :
    Change s operation (s.perform operation).1 := by
  cases operation with
  | build b p word =>
      exact change_atBuilder rfl _ fun k works => change_keep works fun a built => Asset.whole_build built
  | buildGrammar b p g initiator n =>
      refine change_atBuilder rfl _ fun k works => change_keep works fun a built => ?_
      obtain ⟨word, drawn⟩ := Asset.buildGrammar_eq_ok built
      exact Asset.whole_build drawn
  | grow b p g initiator n draws =>
      refine change_atBuilder rfl _ fun k works => ?_
      cases drawnWords p g initiator n draws with
      | error fault => exact change_none s _
      | ok words =>
          obtain ⟨drawn, -, each, kept, -⟩ := s.keepAll_eq k p words
          change Change s _ (s.keepAll k p words).1
          rw [kept]
          refine .given k (drawn.map Prod.snd) works ?_
          intro a member
          obtain ⟨entry, inside, rfl⟩ := List.mem_map.mp member
          obtain ⟨word, -, built⟩ := Outcome.related_of_mem each inside
          exact Asset.whole_build built
  | clear b => exact change_atBuilder rfl _ fun k works => .cleared k works
  | dispose i =>
      rw [perform]
      split
      · exact .released i _ rfl
      · exact change_none s _
  | addInstance i phase =>
      rw [perform]
      split
      · rename_i next added
        obtain ⟨number, a, found, skins, rfl⟩ := addInstance_eq_ok added
        refine .moving _ ?_
        intro x member
        rcases List.mem_append.mp member with old | new
        · exact .inl old
        · rcases List.mem_singleton.mp new with rfl
          exact .inr ⟨a, found, skins⟩
      · exact change_none s _
  | clearInstances =>
      refine .moving [] ?_
      intro x member
      cases member
  | sway | builderSway | animate | posed => exact change_none s _

theorem run_cons (s : Session α) (operation : Operation α) (later : List (Operation α)) :
    s.run (operation :: later) = (s.perform operation).1.run later := rfl

theorem stays_run (s : Session α) (operations : List (Operation α)) : Stays s (s.run operations) := by
  induction operations generalizing s with
  | nil =>
      intro i a found
      exact .inl found
  | cons operation later ih => exact (stays_change (s.change_perform operation)).trans (ih _)

end Session

end Arbor
