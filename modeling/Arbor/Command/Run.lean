import Arbor.Command.Disk
import Arbor.Command.Plan
import Arbor.Text.Lines

/-!
# Runs

A command line carried out: what is done in order, what is said of a fault, and how the run ends. A run takes place on
any system that can do what tasks ask for; a desk with a disk, a log and a library is one.
-/

namespace Arbor.Command

inductive Content where
  | bytes (b : ByteArray)
  | log
  | product (p : Product)

/-- How a run ends: with a code, or with a fault that nobody reports. -/
inductive Ending where
  | exit (code : Nat)
  | escaped (e : Fault Float)

/-- What is said of a fault that ends a run. Those of the build and of the disk are reported, others are not. -/
def complaint? (e : Fault Float) : Option Text :=
  match e.kind with
  | .disk _ => some ("File error: " ++ e.message)
  | kind => if kind.isReported then some ("Error: " ++ e.message) else none

/-- What a run works on: the log is set up, the world looked at, actions are carried out and a fault is told to the
user. Any of these may fail, and leave a part of its work behind. -/
structure System (m : Type → Type) where
  setup : Invocation → m (Option (Fault Float))
  look : Task → m World
  perform : Action → m (Option (Fault Float))
  complain : Text → m (Option (Fault Float))

namespace System

variable {m : Type → Type} [Monad m]

def carry (s : System m) (a : Action) : m (Option (Fault Float)) := do
  match ← s.perform a with
  | none => return none
  | some e =>
      match a.excuse? e with
      | some r => s.perform (.note r)
      | none => return some e

def follow (s : System m) : List Action → m (Option (Fault Float))
  | [] => return none
  | a :: rest => do
      match ← s.carry a with
      | none => s.follow rest
      | some e => return some e

def conclude (s : System m) : Option (Fault Float) → m Ending
  | none => return .exit 0
  | some e =>
      match complaint? e with
      | some line => do
          match ← s.complain line with
          | none => return .exit 2
          | some other => return .escaped other
      | none => return .escaped e

/-- Carry out a command line. Only what is met once the log has been set up is reported. -/
def run (s : System m) (i : Invocation) : m Ending := do
  match ← s.setup i with
  | some e => return .escaped e
  | none =>
      let plan := i.task.plan (← s.look i.task)
      match ← s.follow plan.actions with
      | some e => s.conclude (some e)
      | none => s.conclude plan.fault?

end System

/-- The libraries that requests go to: what becomes of the disk, and how they fail if they do. -/
abbrev Library := Request → Disk Content → Disk Content × Option (Fault Float)

/-- Where a desk stands, which no run changes: the lines that can be printed there, a source of words by chance, and the
libraries. -/
structure Site where
  takes : Text → Bool
  chance : Nat → Array UInt32
  library : Library

/-- Where a task leaves its traces. -/
structure Desk extends Site where
  disk : Disk Content
  log : Log
  output : List Text

namespace Desk

def onFile {β : Type} (file : Text) (request : Except DiskFault β) : Except (Fault Float) β := do
  Path.checkName file
  if Path.textLimit < Path.byteCount file then throw (.disk .nameTooLong file)
  match request with
  | .ok x => return x
  | .error cause => throw (.disk cause file)

def read (d : Desk) : Reader := fun file => do
  match ← onFile file (d.disk.read (Path.pieces file)) with
  | .bytes b => return b
  | _ => return ByteArray.empty

def write (d : Desk) (file : Text) (content : Content) : Except (Fault Float) Desk := do
  return { d with disk := ← onFile file (d.disk.write (Path.pieces file) content) }

def makeFolder (d : Desk) (file : Text) : Except (Fault Float) Desk := do
  let folder := (Path.ofText file).folder
  if Path.depthLimit < d.disk.missing folder then throw .tooDeep
  return { d with disk := ← d.disk.makeFolders (Path.root file) [] folder }

def say (d : Desk) (piece : Text) : Desk := { d with log := d.log.say piece }

/-- End the last line of the console, if it has been left open. -/
def endLine (d : Desk) : Desk :=
  match d.log.console.getLast?.bind List.getLast? with
  | none | some (.scalar '\n') => d
  | some _ => d.say "\n"

def setup (d : Desk) (i : Invocation) : Except (Fault Float) Desk := do
  let d ←
    match i.logFile with
    | some file => d.write (Path.straight file) .log
    | none => .ok d
  return { d with log := d.log.setup (if i.verbose then 10 else 30) i.logFile }

def print (d : Desk) (line : Text) : Except (Fault Float) Desk :=
  if d.takes line then .ok { d with output := d.output ++ [line] } else .error .unencodable

def ask (d : Desk) (r : Request) : Option (Fault Float) × Desk :=
  let answer := d.library r d.disk
  (answer.2, { d with disk := answer.1 })

/-- What becomes of a desk when it is worked on: it stays as it is where that fails. -/
def after (d : Desk) : Except (Fault Float) Desk → Option (Fault Float) × Desk
  | .ok next => (none, next)
  | .error e => (some e, d)

def perform (d : Desk) : Action → Option (Fault Float) × Desk
  | .note r => (none, { d with log := d.log.add r })
  | .print line => d.after (d.print line)
  | .announce steps count => (none, d.say s!"{steps}: {count} ")
  | .endLine => (none, d.endLine)
  | .makeFolder file => d.after (d.makeFolder file)
  | .write file product => d.after (d.write file (.product product))
  | .request r => d.ask r

def system : System (StateM Desk) where
  setup i := fun d => d.after (d.setup i)
  look _ := fun d => (⟨d.read, d.chance⟩, d)
  perform a := fun d => d.perform a
  complain line := fun d => (none, d.endLine.say (line ++ "\n"))

def printed (d : Desk) : Text := d.output.flatMap fun line => line ++ "\n"

end Desk

structure Outcome where
  desk : Desk
  ending : Ending

namespace Outcome

def isComplaint (line : Text) : Bool :=
  (Text.ofString "Error: ").isPrefixOf line || (Text.ofString "File error: ").isPrefixOf line

def complaints (o : Outcome) : List Text := o.desk.log.transcript.lines.filter isComplaint

end Outcome

def Invocation.run (i : Invocation) (d : Desk) : Outcome :=
  let ended := Desk.system.run i d
  ⟨ended.2, ended.1⟩

/-- Carry out a command line, unless it is refused. -/
def run (words : List Word) (d : Desk) : Except Refusal Outcome := do
  return (← parse words).run d

end Arbor.Command
