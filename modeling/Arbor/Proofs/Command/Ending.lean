import Arbor.Command.Formats
import Mathlib.Logic.Basic

/-!
# How runs end

Which faults a run is ended by, whatever it works on does, and which of them are told to the user. The log is set up
before the part of a run that reports what it meets, and the window of a scene keeps its faults to itself.
-/

namespace Arbor.Command

section

variable {e : Fault Float}

theorem complaint?_of_build (reported : e.kind.isReported = true) : complaint? e = some ("Error: " ++ e.message) := by
  rw [complaint?]
  split
  · rename_i cause kind
    rw [kind] at reported
    cases reported
  · rw [if_pos reported]

theorem complaint?_of_disk {cause : DiskFault} (kind : e.kind = .disk cause) :
    complaint? e = some ("File error: " ++ e.message) := by rw [complaint?, kind]

theorem complaint?_of_other (unreported : e.kind.isReported = false) (other : ∀ cause, e.kind ≠ .disk cause) :
    complaint? e = none := by
  rw [complaint?]
  split
  · rename_i cause kind
    exact absurd kind (other cause)
  · rw [unreported, if_neg Bool.false_ne_true]

end

theorem Action.excuse?_eq_none_iff {a : Action} {e : Fault Float} :
    a.excuse? e = none ↔ a ≠ .request .showScene ∨ e.kind = .interrupt := by
  unfold excuse?
  split
  · split <;> simp_all
  · simp_all

namespace System

variable {σ : Type} {s : System (StateM σ)} {a : Action} {x y z : σ} {e : Fault Float} {fault : Option (Fault Float)}

/-- An action carried out from a state to a state, to a fault or to none. What may be excused is noted in its place. -/
inductive Carries (s : System (StateM σ)) (a : Action) (x : σ) : Option (Fault Float) → σ → Prop where
  | done {y : σ} (goes : s.perform a x = (none, y)) : Carries s a x none y
  | raised {y : σ} {e : Fault Float} (fails : s.perform a x = (some e, y)) (blamed : a.excuse? e = none) :
      Carries s a x (some e) y
  | excused {y z : σ} {e : Fault Float} {r : Record} {fault : Option (Fault Float)}
      (fails : s.perform a x = (some e, y)) (excused : a.excuse? e = some r) (noted : s.perform (.note r) y = (fault, z)) :
      Carries s a x fault z

/-- Actions carried out one after another, from a state to a state. -/
inductive Performs (s : System (StateM σ)) : σ → List Action → σ → Prop where
  | nothing (x : σ) : Performs s x [] x
  | next {x y z : σ} {a : Action} {rest : List Action} (first : s.Carries a x none y)
      (later : Performs s y rest z) : Performs s x (a :: rest) z

/-- A fault raised by a plan from a state on, and the state it is raised in: by one of its actions, those before it
having been carried out, or by the plan itself behind all of them. -/
inductive Raises (s : System (StateM σ)) (plan : Plan Unit) (x : σ) : σ → Fault Float → Prop where
  | action {y z : σ} {e : Fault Float} {before after : List Action} {a : Action}
      (planned : plan.actions = before ++ a :: after) (done : s.Performs x before y)
      (fails : s.Carries a y (some e) z) : Raises s plan x z e
  | task {y : σ} {e : Fault Float} (done : s.Performs x plan.actions y) (stops : plan.fault? = some e) :
      Raises s plan x y e

def Completes (s : System (StateM σ)) (plan : Plan Unit) (x y : σ) : Prop :=
  s.Performs x plan.actions y ∧ plan.fault? = none

theorem bind_apply {β γ : Type} (first : StateM σ β) (later : β → StateM σ γ) (x : σ) :
    (first >>= later) x = later (first x).1 (first x).2 := rfl

theorem carry_eq (s : System (StateM σ)) (a : Action) (x : σ) :
    s.carry a x =
      match s.perform a x with
      | (none, y) => (none, y)
      | (some e, y) =>
          match a.excuse? e with
          | some r => s.perform (.note r) y
          | none => (some e, y) := by
  rw [carry, bind_apply]
  rcases s.perform a x with ⟨_ | e, y⟩
  · rfl
  · dsimp only
    cases a.excuse? e <;> rfl

theorem carry_eq_iff : s.carry a x = (fault, y) ↔ s.Carries a x fault y := by
  rw [carry_eq]
  constructor
  · intro carried
    split at carried
    · rename_i goes
      cases carried
      exact .done goes
    · rename_i fails
      split at carried
      · rename_i excused
        exact .excused fails excused carried
      · rename_i blamed
        cases carried
        exact .raised fails blamed
  · rintro (goes | ⟨fails, blamed⟩ | ⟨fails, excused, noted⟩)
    · rw [goes]
    · rw [fails]
      dsimp only
      rw [blamed]
    · rw [fails]
      dsimp only
      rw [excused]
      exact noted

theorem follow_cons (s : System (StateM σ)) (a : Action) (rest : List Action) (x : σ) :
    s.follow (a :: rest) x =
      match s.carry a x with
      | (none, y) => s.follow rest y
      | (some e, y) => (some e, y) := by
  rw [follow, bind_apply]
  rcases s.carry a x with ⟨_ | e, y⟩ <;> rfl

theorem follow_eq_none_iff {actions : List Action} : s.follow actions x = (none, y) ↔ s.Performs x actions y := by
  constructor
  · intro followed
    induction actions generalizing x with
    | nil =>
        cases followed
        exact .nothing _
    | cons a rest ih =>
        rw [follow_cons] at followed
        split at followed
        · rename_i next first
          exact .next (carry_eq_iff.mp first) (ih followed)
        · cases followed
  · intro performed
    induction performed with
    | nothing => rfl
    | next first _ ih =>
        rw [follow_cons, carry_eq_iff.mpr first]
        exact ih

theorem follow_eq_some_iff {actions : List Action} : s.follow actions x = (some e, z) ↔
    ∃ before a after y, actions = before ++ a :: after ∧ s.Performs x before y ∧ s.Carries a y (some e) z := by
  constructor
  · -- What has been carried out grows at its front while the list is gone through.
    intro followed
    induction actions generalizing x with
    | nil => cases followed
    | cons a rest ih =>
        rw [follow_cons] at followed
        split at followed
        · rename_i next first
          obtain ⟨before, b, after, y, split, done, fails⟩ := ih followed
          exact ⟨a :: before, b, after, y, by rw [split, List.cons_append], .next (carry_eq_iff.mp first) done, fails⟩
        · rename_i next fault fails
          cases followed
          exact ⟨[], a, rest, x, rfl, .nothing x, carry_eq_iff.mp fails⟩
  · rintro ⟨before, a, after, y, rfl, done, fails⟩
    induction done with
    | nothing => rw [List.nil_append, follow_cons, carry_eq_iff.mpr fails]
    | next first _ ih =>
        rw [List.cons_append, follow_cons, carry_eq_iff.mpr first]
        exact ih fails

theorem conclude_eq (s : System (StateM σ)) (e : Fault Float) (x : σ) :
    s.conclude (some e) x =
      match complaint? e with
      | none => (.escaped e, x)
      | some line =>
          match s.complain line x with
          | (none, y) => (.exit 2, y)
          | (some other, y) => (.escaped other, y) := by
  rw [conclude]
  cases complaint? e with
  | none => rfl
  | some line =>
      dsimp only
      rw [bind_apply]
      rcases s.complain line x with ⟨_ | other, y⟩ <;> rfl

variable {i : Invocation} {w : World}

theorem run_of_unready (unready : s.setup i x = (some e, y)) : s.run i x = (.escaped e, y) := by
  rw [run, bind_apply, unready]
  rfl

/-- Behind the log and the look at the world, a run follows its plan to a fault or to its end. -/
theorem run_of_ready (ready : s.setup i x = (none, y)) (found : s.look i.task y = (w, z)) :
    s.run i x =
      match s.follow (i.task.plan w).actions z with
      | (some e, u) => s.conclude (some e) u
      | (none, u) => s.conclude (i.task.plan w).fault? u := by
  rw [run, bind_apply, ready]
  dsimp only
  rw [bind_apply, found]
  dsimp only
  rw [bind_apply]
  rcases s.follow (i.task.plan w).actions z with ⟨_ | e, u⟩ <;> rfl

theorem run_of_raises (ready : s.setup i x = (none, y)) (found : s.look i.task y = (w, z)) {u : σ}
    (raised : s.Raises (i.task.plan w) z u e) : s.run i x = s.conclude (some e) u := by
  rw [run_of_ready ready found]
  cases raised with
  | action planned done fails => rw [follow_eq_some_iff.mpr ⟨_, _, _, _, planned, done, fails⟩]
  | task done stops =>
      rw [follow_eq_none_iff.mpr done]
      dsimp only
      rw [stops]

theorem run_of_completes (ready : s.setup i x = (none, y)) (found : s.look i.task y = (w, z)) {u : σ}
    (completed : s.Completes (i.task.plan w) z u) : s.run i x = (.exit 0, u) := by
  rw [run_of_ready ready found, follow_eq_none_iff.mpr completed.1]
  dsimp only
  rw [completed.2]
  rfl

theorem raises_or_completes (s : System (StateM σ)) (plan : Plan Unit) (x : σ) :
    (∃ y e, s.Raises plan x y e) ∨ ∃ y, s.Completes plan x y := by
  rcases followed : s.follow plan.actions x with ⟨_ | e, y⟩
  · have done := follow_eq_none_iff.mp followed
    cases stops : plan.fault? with
    | some e => exact .inl ⟨y, e, .task done stops⟩
    | none => exact .inr ⟨y, done, stops⟩
  · obtain ⟨before, a, after, z, planned, done, fails⟩ := follow_eq_some_iff.mp followed
    exact .inl ⟨y, e, .action planned done fails⟩

/-- A run says a line in a state and exits with 2. If it cannot say the line, what keeps it from that escapes. -/
structure Reports (s : System (StateM σ)) (i : Invocation) (x y : σ) (line : Text) : Prop where
  said : ∀ z, s.complain line y = (none, z) → s.run i x = (.exit 2, z)
  unsaid : ∀ other z, s.complain line y = (some other, z) → s.run i x = (.escaped other, z)

theorem reports_of_complaint {line : Text} (said : complaint? e = some line)
    (concluded : s.run i x = s.conclude (some e) y) : s.Reports i x y line := by
  rw [conclude_eq, said] at concluded
  refine ⟨fun z told => ?_, fun other z untold => ?_⟩
  · rw [concluded]
    dsimp only
    rw [told]
  · rw [concluded]
    dsimp only
    rw [untold]

theorem conclude_of_other (unreported : e.kind.isReported = false) (other : ∀ cause, e.kind ≠ .disk cause) :
    s.conclude (some e) z = (.escaped e, z) := by
  rw [conclude_eq, complaint?_of_other unreported other]

theorem conclude_ne_zero : (s.conclude (some e) z).1 ≠ .exit 0 := by
  rw [conclude_eq]
  split
  · simp
  · split <;> simp

theorem exits_zero_iff (ready : s.setup i x = (none, y)) (found : s.look i.task y = (w, z)) :
    (s.run i x).1 = .exit 0 ↔ ¬ ∃ u e, s.Raises (i.task.plan w) z u e := by
  constructor
  · rintro zero ⟨u, e, raised⟩
    rw [run_of_raises ready found raised] at zero
    exact conclude_ne_zero zero
  · intro quiet
    obtain ⟨u, completed⟩ := (raises_or_completes s (i.task.plan w) z).resolve_left quiet
    rw [run_of_completes ready found completed]

end System

/-- What is raised while a task is handled ends the run with 2 and one complaint when it comes from the build or from the
disk, whatever the run works on does, and escapes otherwise; where nothing is raised the run exits with zero. Only the
window of a scene keeps what it raises to itself. And what is raised while the log is set up escapes even if it comes
from the disk. -/
theorem faults_reported {σ : Type} (s : System (StateM σ)) (i : Invocation) (x : σ) :
    (∀ y e, s.setup i x = (some e, y) → s.run i x = (.escaped e, y)) ∧
      (∀ y w z, s.setup i x = (none, y) → s.look i.task y = (w, z) →
        (∀ u e, s.Raises (i.task.plan w) z u e →
          (e.kind.isReported = true → s.Reports i x u ("Error: " ++ e.message)) ∧
            (∀ cause, e.kind = .disk cause → s.Reports i x u ("File error: " ++ e.message)) ∧
            (e.kind.isReported = false → (∀ cause, e.kind ≠ .disk cause) → s.run i x = (.escaped e, u))) ∧
          (∀ u, s.Completes (i.task.plan w) z u → s.run i x = (.exit 0, u)) ∧
          ((s.run i x).1 = .exit 0 ↔ ¬ ∃ u e, s.Raises (i.task.plan w) z u e)) ∧
      ∀ (a : Action) (e : Fault Float), a.excuse? e = none ↔ a ≠ .request .showScene ∨ e.kind = .interrupt := by
  refine ⟨fun y e => System.run_of_unready, fun y w z ready found => ?_, fun a e => Action.excuse?_eq_none_iff⟩
  refine ⟨fun u e raised => ?_, fun u => System.run_of_completes ready found, System.exits_zero_iff ready found⟩
  have concluded := System.run_of_raises ready found raised
  refine ⟨fun reported => ?_, fun cause kind => ?_, fun unreported other => ?_⟩
  · exact System.reports_of_complaint (complaint?_of_build reported) concluded
  · exact System.reports_of_complaint (complaint?_of_disk kind) concluded
  · exact concluded.trans (System.conclude_of_other unreported other)

theorem Invocation.ending_run (i : Invocation) (d : Desk) : (i.run d).ending = (Desk.system.run i d).1 := rfl

theorem Invocation.desk_run (i : Invocation) (d : Desk) : (i.run d).desk = (Desk.system.run i d).2 := rfl

/-- A place where every line can be printed and nothing happens by chance. -/
def Site.plain : Site := ⟨fun _ => true, fun _ => #[], .standard⟩

def Desk.bare : Desk := ⟨.plain, .empty, .unset, []⟩

def describing (file : Text) : Invocation := ⟨false, none, .generate ⟨.usual, some file, .usual, {}, []⟩ true⟩

def listing (log : Text) : Invocation := ⟨false, some log, .presets none .usual⟩

theorem Desk.performs_prints (lines : List Text) {d : Desk} (takes : ∀ line ∈ lines, d.takes line = true) :
    ∃ z, system.Performs d (lines.map .print) z := by
  induction lines generalizing d with
  | nil => exact ⟨d, .nothing d⟩
  | cons line rest ih =>
      have printed : d.perform (.print line) = (none, { d with output := d.output ++ [line] }) := by
        rw [perform, print, if_pos (takes line List.mem_cons_self), after]
      obtain ⟨z, later⟩ := ih (d := { d with output := d.output ++ [line] }) fun other member =>
        takes other (List.mem_cons_of_mem _ member)
      exact ⟨z, .next (.done printed) later⟩

theorem faults_reported_missing :
    ((describing "c").run .bare).ending = .exit 2 ∧ ((listing "l").run .bare).ending = .exit 0 ∧
      ((listing "a/l").run .bare).ending = .escaped (.disk .missing "a/l") := by
  obtain ⟨-, reports, -⟩ := faults_reported Desk.system (describing "c") .bare
  obtain ⟨-, lists, -⟩ := faults_reported Desk.system (listing "l") .bare
  obtain ⟨escapes, -⟩ := faults_reported Desk.system (listing "a/l") .bare
  refine ⟨?_, ?_, ?_⟩
  · have ran := ((reports _ _ _ rfl rfl).1 _ (.disk .missing "c") (.task (.nothing _) rfl)).2.1 .missing rfl
    rw [Invocation.ending_run, ran.said _ rfl]
  · have takes : ∀ line ∈ Preset.all.map fun p => Text.ofString (Task.presetLine p),
        ({ Desk.bare with disk := ⟨[(["l"], .file .log)]⟩, log := Log.unset.setup 30 "l" } : Desk).takes line = true :=
      fun _ _ => rfl
    obtain ⟨z, printed⟩ := Desk.performs_prints _ takes
    rw [List.map_map] at printed
    have ran := (lists _ _ _ rfl rfl).2.1 z ⟨printed, rfl⟩
    rw [Invocation.ending_run, ran]
  · have unready : Desk.system.setup (listing "a/l") .bare = (some (.disk .missing "a/l"), .bare) := rfl
    rw [Invocation.ending_run, escapes _ _ unready]

/-- Not every fault of the disk ends a run with 2. -/
theorem log_fault_escapes :
    ¬ ∀ (words : List Word) (i : Invocation) (d : Desk) (cause : DiskFault) (file : Text), parse words = .ok i →
      d.setup i = .error (.disk cause file) → (i.run d).ending = .exit 2 := by
  intro every
  have reported := every ["--log_file", "a/l", "presets"] (listing "a/l") .bare .missing "a/l" rfl rfl
  have escaped : ((listing "a/l").run .bare).ending = .escaped (.disk .missing "a/l") := rfl
  rw [escaped] at reported
  cases reported

end Arbor.Command
