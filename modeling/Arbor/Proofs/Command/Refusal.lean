import Arbor.Proofs.Command.Filing
import Arbor.Proofs.Config.Loading

namespace Arbor.Command

variable {i : Invocation} {d desk : Desk} {file : Text} {fault : Fault Float}

theorem plan_of_refused {task : Task} {w : World} (config : task.config? = some file)
    (refused : (w.read file >>= TreeConfig.ofBytes file) = .error fault) : task.plan w = ⟨[], .error fault⟩ := by
  have unloaded (s : Source) (given : s.config = some file) : s.load w.read = .error fault := by
    rw [Source.load, given]
    cases opened : w.read file with
    | error other =>
        rw [opened] at refused
        cases refused
        simp [opened]
    | ok bytes =>
        rw [opened, Outcome.ok_bind] at refused
        simp [opened, refused]
  have stopped (s : Source) (given : s.config = some file) {β : Type} (next : TreeConfig Float → Plan β) :
      (Plan.of (s.load w.read) >>= next) = ⟨[], .error fault⟩ := by
    rw [unloaded s given]
    rfl
  cases task with
  | generate s _ => exact stopped s config _
  | build s _ _ => exact stopped s config _
  | render s _ _ _ _ _ => exact stopped s config _
  | animate s _ _ _ _ _ => exact stopped s config _
  | presets _ _ => cases config

theorem run_of_refused (ready : d.setup i = .ok desk) (config : i.task.config? = some file)
    (refused : (desk.read file >>= TreeConfig.ofBytes file) = .error fault) : i.run d = desk.ended fault := by
  have setup : Desk.system.setup i d = (none, desk) := by
    change d.after (d.setup i) = _
    rw [ready, Desk.after]
  have planned := plan_of_refused (w := ⟨desk.read, desk.chance⟩) config refused
  rw [Invocation.run, System.run_of_ready setup rfl, planned]
  dsimp only
  have followed : Desk.system.follow [] desk = (none, desk) := rfl
  rw [followed]
  dsimp only [Plan.fault?]
  rw [Desk.conclude_system]

theorem ended_reported (kind : fault.kind = .parameter) :
    desk.ended fault = ⟨desk.endLine.say ("Error: " ++ fault.message ++ "\n"), .exit 2⟩ := by
  have reported : fault.kind.isReported = true := by
    rw [kind]
    rfl
  rw [Desk.ended, complaint?_of_build reported]

theorem ended_unreported {bytes : ByteArray} (refuses : TreeConfig.RefusesFile bytes fault)
    (kind : fault.kind ≠ .parameter) : desk.ended fault = ⟨desk, .escaped fault⟩ := by
  have unsaid : complaint? fault = none := by
    cases refuses with
    | reported reported _ => exact absurd reported kind
    | _ => rfl
  rw [Desk.ended, unsaid]

/-- A value or a file that makes no configuration is refused for a parameter, unless there is one of the things in it
that `Refuses` and `RefusesFile` name; and a run that is given the file exits with 2 just when it is for a parameter, or
when the file cannot be opened. -/
theorem refused_configuration {α : Type} [Scalar α] :
    (∀ (v : Value α) (fault : Fault α), TreeConfig.ofValue v = .error fault → TreeConfig.Refuses v fault) ∧
      (∀ (path : Text) (bytes : ByteArray) (fault : Fault Float),
        TreeConfig.ofBytes path bytes = .error fault → TreeConfig.RefusesFile bytes fault) ∧
      ∀ (i : Invocation) (d desk : Desk) (file : Text), d.setup i = .ok desk → i.task.config? = some file →
        (∀ bytes fault, desk.read file = .ok bytes → TreeConfig.ofBytes file bytes = .error fault →
          i.run d =
            if fault.kind = .parameter then ⟨desk.endLine.say ("Error: " ++ fault.message ++ "\n"), .exit 2⟩
            else ⟨desk, .escaped fault⟩) ∧
          ∀ cause name, desk.read file = .error (.disk cause name) → (i.run d).ending = .exit 2 := by
  refine ⟨fun v => TreeConfig.stopsOnly_ofValue v, fun path bytes => TreeConfig.stopsOnly_ofBytes path bytes, ?_⟩
  intro i d desk file ready config
  constructor
  · intro bytes fault opened refused
    have ends : i.run d = desk.ended fault := by
      refine run_of_refused ready config ?_
      rw [opened, Outcome.ok_bind, refused]
    rw [ends]
    split
    · rename_i kind
      exact ended_reported kind
    · rename_i kind
      exact ended_unreported (TreeConfig.stopsOnly_ofBytes file bytes fault refused) kind
  · intro cause name missing
    have ends : i.run d = desk.ended (.disk cause name) := by
      refine run_of_refused ready config ?_
      rw [missing, Outcome.error_bind]
    rw [ends]
    rfl

def holding (byte : UInt8) : Desk := { Desk.bare with disk := ⟨[(["c"], .file (.bytes ⟨#[byte]⟩))]⟩ }

def counting : Invocation := ⟨false, none, .generate ⟨.usual, some "c", .usual, {}, []⟩ true⟩

theorem refused_configuration_byte :
    TreeConfig.Refuses (.list [] : Value Float) (.expected "root" .object) ∧
      TreeConfig.RefusesFile ⟨#[0xff]⟩ .notText ∧
      (counting.run (holding 0x5b)).ending = .exit 2 ∧
      (counting.run (holding 0xff)).ending = .escaped .notText := by
  obtain ⟨values, files, runs⟩ := refused_configuration (α := Float)
  refine ⟨values _ _ rfl, files "c" _ _ rfl, ?_, ?_⟩
  · rw [(runs counting (holding 0x5b) _ "c" rfl rfl).1 ⟨#[0x5b]⟩ (.invalidFile "c") rfl rfl]
    rfl
  · rw [(runs counting (holding 0xff) _ "c" rfl rfl).1 ⟨#[0xff]⟩ .notText rfl rfl]
    rfl

/-- Not every file that makes no configuration is refused for a parameter. -/
theorem stray_byte_escapes :
    ¬ ∀ (path : Text) (bytes : ByteArray), (∃ c, TreeConfig.ofBytes path bytes = .ok c) ∨
      ∃ fault, TreeConfig.ofBytes path bytes = .error fault ∧ fault.kind = .parameter := by
  intro every
  have stray : TreeConfig.ofBytes "c" ⟨#[0xff]⟩ = .error .notText := rfl
  rcases every "c" ⟨#[0xff]⟩ with ⟨c, made⟩ | ⟨fault, refused, kind⟩
  · rw [stray] at made
    cases made
  · rw [stray] at refused
    cases refused
    cases kind

end Arbor.Command
