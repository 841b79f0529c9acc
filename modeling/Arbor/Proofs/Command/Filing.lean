import Arbor.Proofs.Command.Ending
import Arbor.Proofs.Outcome

open Arbor.Outcome

namespace Arbor.Command

namespace Disk

variable {γ : Type} {d : Disk γ}

theorem node?_put_self {path : Path} (below : path ≠ []) (node : Node γ) :
    (d.put path node).node? path = some node := by
  cases path with
  | nil => exact absurd rfl below
  | cons name rest => exact Table.get?_put_self _ _ _

theorem node?_put_of_ne {path other : Path} (different : path ≠ other) (node : Node γ) :
    (d.put path node).node? other = d.node? other := by
  cases other with
  | nil => rfl
  | cons name rest => exact Table.get?_put_of_ne different _ _

theorem isFolder_nil : d.isFolder [] = true := rfl

/-- The way to a file does not lead through the file, so it stays open once the file is there. -/
theorem locate_put {path : Path} (free : d.isFolder path = false) (content : γ) {here : Path} {pieces : List Text}
    (found : d.locate here pieces = .ok path) : (d.put path (.file content)).locate here pieces = .ok path := by
  -- Every folder on the way is another node than the file, so each of them is found as it was.
  induction pieces generalizing here with
  | nil => exact found
  | cons piece rest ih =>
      unfold locate at found ⊢
      split at found
      · rename_i idle
        rw [if_pos idle]
        exact ih found
      · rename_i moves
        rw [if_neg moves]
        split at found
        · rename_i upward
          rw [if_pos upward]
          exact ih found
        · rename_i downward
          rw [if_neg downward]
          split at found
          · cases found
          · rename_i short
            rw [if_neg short]
            cases rest with
            | nil => exact found
            | cons next later =>
                cases there : d.node? (here ++ [piece]) with
                | none =>
                    rw [there] at found
                    cases found
                | some node =>
                    cases node with
                    | file other =>
                        rw [there] at found
                        cases found
                    | folder =>
                        rw [there] at found
                        have apart : path ≠ here ++ [piece] := by
                          rintro rfl
                          rw [isFolder, there] at free
                          cases free
                        rw [node?_put_of_ne apart, there]
                        exact ih found

theorem read_of_write {pieces : List Text} {content : γ} {after : Disk γ}
    (written : d.write pieces content = .ok after) : after.read pieces = .ok content := by
  obtain ⟨path, found, written⟩ := bind_eq_ok written
  rw [guard_eq_ok_iff] at written
  obtain ⟨free, same⟩ := written
  cases same
  have file : d.isFolder path = false := Bool.eq_false_iff.mpr free
  have below : path ≠ [] := by
    rintro rfl
    exact free isFolder_nil
  rw [read, locate_put file content found, ok_bind, node?_put_self below]
  rfl

end Disk

/-- Actions that only leave something in the log and on the console. -/
def Action.isNote : Action → Bool
  | .note _ | .announce .. | .endLine => true
  | .print _ | .makeFolder _ | .write .. | .request _ => false

def Action.isQuiet : Action → Bool
  | .print _ => true
  | a => a.isNote

namespace Desk

variable {d : Desk}

theorem perform_of_note {a : Action} (note : a.isNote = true) : ∃ log, d.perform a = (none, { d with log }) := by
  cases a with
  | note | announce => exact ⟨_, rfl⟩
  | endLine =>
      rw [perform, endLine]
      split <;> exact ⟨_, rfl⟩
  | print | makeFolder | write | request => cases note

theorem disk_endLine : d.endLine.disk = d.disk := by
  rw [endLine]
  split <;> rfl

theorem makeFolder_withLog (log : Log) (file : Text) :
    ({ d with log } : Desk).makeFolder file = (d.makeFolder file).map fun made => { made with log } := by
  rw [makeFolder, makeFolder]
  dsimp only
  split
  · rfl
  · cases d.disk.makeFolders (Path.root file) [] (Path.ofText file).folder <;> rfl

theorem write_withLog (log : Log) (file : Text) (content : Content) :
    ({ d with log } : Desk).write file content = (d.write file content).map fun written => { written with log } := by
  rw [write, write]
  cases onFile file (d.disk.write (Path.pieces file) content) <;> rfl

theorem onFile_eq_ok {β : Type} {file : Text} {request : Except DiskFault β} {x : β}
    (done : onFile file request = .ok x) : request = .ok x := by
  obtain ⟨_, -, done⟩ := bind_eq_ok done
  rw [guard_eq_ok_iff] at done
  obtain ⟨-, answered⟩ := done
  cases request with
  | error cause => cases answered
  | ok y =>
      cases answered
      rfl

theorem read_of_written {file : Text} {content : Content} {after : Desk} (written : d.write file content = .ok after) :
    after.disk.read (Path.pieces file) = .ok content := by
  obtain ⟨disk, filed, same⟩ := bind_eq_ok written
  cases same
  exact Disk.read_of_write (onFile_eq_ok filed)

theorem site_of_write {file : Text} {content : Content} {written : Desk} (filed : d.write file content = .ok written) :
    written.toSite = d.toSite := by
  obtain ⟨disk, -, same⟩ := bind_eq_ok filed
  cases same
  rfl

theorem site_of_makeFolder {file : Text} {made : Desk} (folders : d.makeFolder file = .ok made) :
    made.toSite = d.toSite := by
  obtain ⟨-, folders⟩ := guard_eq_ok_iff.mp folders
  obtain ⟨disk, -, same⟩ := bind_eq_ok folders
  cases same
  rfl

theorem site_after {outcome : Except (Fault Float) Desk} (same : ∀ next, outcome = .ok next → next.toSite = d.toSite) :
    (d.after outcome).2.toSite = d.toSite := by
  cases outcome with
  | ok next => exact same next rfl
  | error e => rfl

theorem site_perform (d : Desk) (a : Action) : (d.perform a).2.toSite = d.toSite := by
  cases a with
  | note | announce | request => rfl
  | endLine =>
      rw [perform, endLine]
      split <;> rfl
  | print line =>
      refine site_after fun next printed => ?_
      rw [print] at printed
      split at printed <;> cases printed
      rfl
  | makeFolder file => exact site_after fun next => site_of_makeFolder
  | write file product => exact site_after fun next => site_of_write

theorem site_of_setup {i : Invocation} {desk : Desk} (ready : d.setup i = .ok desk) : desk.toSite = d.toSite := by
  rw [setup] at ready
  cases log : i.logFile with
  | none =>
      rw [log] at ready
      cases ready
      rfl
  | some file =>
      rw [log] at ready
      obtain ⟨opened, written, same⟩ := bind_eq_ok ready
      cases same
      have kept : opened.toSite = d.toSite := site_of_write written
      exact kept

def ended (d : Desk) (e : Fault Float) : Outcome :=
  match complaint? e with
  | some line => ⟨d.endLine.say (line ++ "\n"), .exit 2⟩
  | none => ⟨d, .escaped e⟩

theorem conclude_system (d : Desk) (e : Fault Float) :
    system.conclude (some e) d = ((d.ended e).ending, (d.ended e).desk) := by
  rw [System.conclude_eq, ended]
  cases complaint? e <;> rfl

/-- The end of a run that still has actions to carry out, and then comes to a result. -/
def finish (d : Desk) (actions : List Action) (result : Except (Fault Float) Unit) : Outcome :=
  match system.follow actions d with
  | (some e, last) => last.ended e
  | (none, last) =>
      match result with
      | .ok () => ⟨last, .exit 0⟩
      | .error e => last.ended e

section

variable {actions rest : List Action} {result : Except (Fault Float) Unit} {a : Action} {next : Desk} {e : Fault Float}

theorem finish_of_goes (goes : d.perform a = (none, next)) : d.finish (a :: rest) result = next.finish rest result := by
  rw [finish, System.follow_cons, System.carry_eq_iff.mpr (.done goes), finish]

theorem finish_of_fails (fails : d.perform a = (some e, next)) (blamed : a.excuse? e = none) :
    d.finish (a :: rest) result = next.ended e := by
  rw [finish, System.follow_cons, System.carry_eq_iff.mpr (.raised fails blamed)]

theorem finish_of_notes (notes : ∀ a ∈ actions, a.isNote = true) (rest : List Action)
    (result : Except (Fault Float) Unit) :
    ∃ log, d.finish (actions ++ rest) result = ({ d with log } : Desk).finish rest result := by
  induction actions generalizing d with
  | nil => exact ⟨d.log, rfl⟩
  | cons a later ih =>
      obtain ⟨log, first⟩ := perform_of_note (d := d) (notes a List.mem_cons_self)
      obtain ⟨last, same⟩ := ih (d := { d with log }) fun b member => notes b (List.mem_cons_of_mem _ member)
      exact ⟨last, (finish_of_goes first).trans same⟩

theorem finish_of_made {file : Text} (made : d.makeFolder file = .ok next) {log : Log} :
    ({ d with log } : Desk).finish (.makeFolder file :: rest) result = ({ next with log } : Desk).finish rest result := by
  have folders := makeFolder_withLog (d := d) log file
  rw [made] at folders
  exact finish_of_goes (by rw [perform, folders]; rfl)

theorem finish_of_unmade {file : Text} (unmade : d.makeFolder file = .error e) {log : Log} :
    ({ d with log } : Desk).finish (.makeFolder file :: rest) result = ({ d with log } : Desk).ended e := by
  have folders := makeFolder_withLog (d := d) log file
  rw [unmade] at folders
  exact finish_of_fails (by rw [perform, folders]; rfl) rfl

theorem finish_of_written {file : Text} {product : Product} (written : d.write file (.product product) = .ok next)
    {log : Log} :
    ({ d with log } : Desk).finish (.write file product :: rest) result =
      ({ next with log } : Desk).finish rest result := by
  have files := write_withLog (d := d) log file (.product product)
  rw [written] at files
  exact finish_of_goes (by rw [perform, files]; rfl)

theorem finish_of_unwritten {file : Text} {product : Product} (unwritten : d.write file (.product product) = .error e)
    {log : Log} :
    ({ d with log } : Desk).finish (.write file product :: rest) result = ({ d with log } : Desk).ended e := by
  have files := write_withLog (d := d) log file (.product product)
  rw [unwritten] at files
  exact finish_of_fails (by rw [perform, files]; rfl) rfl

end

/-- A folder cannot be made, or no file be written once it is there. -/
inductive Refuses (d : Desk) (folder file : Text) : Fault Float → Prop where
  | unmade {e : Fault Float} (refused : d.makeFolder folder = .error e) : Refuses d folder file e
  | unwritten {made : Desk} {content : Content} {e : Fault Float} (folders : d.makeFolder folder = .ok made)
      (refused : made.write file content = .error e) : Refuses d folder file e

structure Filed (d : Desk) (folder file : Text) (product : Product) (after : Disk Content) : Prop where
  written : ∃ made next : Desk, d.makeFolder folder = .ok made ∧ made.write file (.product product) = .ok next ∧
    after = next.disk
  kept : after.read (Path.pieces file) = .ok (.product product)

inductive Saves (d : Desk) (folder file : Text) (product : Product) (line : Text) : Outcome → Prop where
  | refused {e : Fault Float} (refuses : d.Refuses folder file e) (last : Desk) :
      Saves d folder file product line (last.ended e)
  | saved {last : Desk} (filed : d.Filed folder file product last.disk) (printed : d.takes line = true) :
      Saves d folder file product line ⟨last, .exit 0⟩
  | unprinted {last : Desk} (filed : d.Filed folder file product last.disk) (garbled : d.takes line = false) :
      Saves d folder file product line ⟨last, .escaped .unencodable⟩

theorem saves_finish (log : Log) (folder file line : Text) (product : Product) :
    d.Saves folder file product line
      (({ d with log } : Desk).finish [.makeFolder folder, .write file product, .print line] (.ok ())) := by
  cases made : d.makeFolder folder with
  | error e =>
      rw [finish_of_unmade made]
      exact .refused (.unmade made) _
  | ok next =>
      rw [finish_of_made made]
      cases written : next.write file (.product product) with
      | error e =>
          rw [finish_of_unwritten written]
          exact .refused (.unwritten made written) _
      | ok last =>
          rw [finish_of_written written]
          have filed : d.Filed folder file product last.disk :=
            ⟨⟨next, last, made, written, rfl⟩, read_of_written written⟩
          have takes : last.takes = d.takes :=
            congrArg Site.takes ((site_of_write written).trans (site_of_makeFolder made))
          cases printed : d.takes line with
          | true =>
              rw [finish_of_goes (by rw [perform, print, if_pos (by rw [takes, printed])]; rfl)]
              exact .saved filed printed
          | false =>
              rw [finish_of_fails (by rw [perform, print, if_neg (by rw [takes, printed]; simp)]; rfl) rfl]
              exact .unprinted filed printed

end Desk

def Outcome.Complains (o : Outcome) : Prop :=
  ∃ (last : Desk) (e : Fault Float) (line : Text),
    complaint? e = some line ∧ o = ⟨last.endLine.say (line ++ "\n"), .exit 2⟩

theorem complains_of_complaint {e : Fault Float} {line : Text} (said : complaint? e = some line) (last : Desk) :
    (last.ended e).Complains := by
  refine ⟨last, e, line, said, ?_⟩
  rw [Desk.ended, said]

theorem run_of_plan {i : Invocation} {d desk : Desk} {first second : List Action} {result : Except (Fault Float) Unit}
    (ready : d.setup i = .ok desk) (planned : i.task.plan ⟨desk.read, desk.chance⟩ = ⟨first ++ second, result⟩)
    (notes : ∀ a ∈ first, a.isNote = true) :
    ∃ log, i.run d = ({ desk with log } : Desk).finish second result := by
  have setup : Desk.system.setup i d = (none, desk) := by
    change d.after (d.setup i) = _
    rw [ready, Desk.after]
  obtain ⟨log, same⟩ := Desk.finish_of_notes (d := desk) notes second result
  refine ⟨log, ?_⟩
  rw [← same, Invocation.run, System.run_of_ready setup rfl, planned, Desk.finish]
  dsimp only
  rcases Desk.system.follow (first ++ second) desk with ⟨_ | e, last⟩
  · cases result with
    | ok => rfl
    | error e =>
        dsimp only [Plan.fault?]
        rw [Desk.conclude_system]
  · dsimp only
    rw [Desk.conclude_system]

end Arbor.Command
