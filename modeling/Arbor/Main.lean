import Arbor.Command.Formats
import Arbor.Export.Text

namespace Arbor.Command

def Product.text : Product → String
  | .frames fs => framesText fs
  | .bones a => a.text

def usage : String :=
  "usage: arbor [-h] [--verbose] [--log_file FILE] generate|build|render|animate|presets ..."

def causeOf : IO.Error → DiskFault
  | .noFileOrDirectory .. => .missing
  | .alreadyExists .. => .exists
  | .inappropriateType .. => .notDirectory
  | other => .other (Text.ofString (toString other))

def faultOf (file : Text) (act : String → IO Unit) : IO (Option (Fault Float)) := do
  try
    act file.toDisplay
    return none
  catch e => return some (.disk (causeOf e) file)

def readFile (file : Text) : IO (Except (Fault Float) ByteArray) := do
  try
    return .ok (← IO.FS.readBinFile file.toDisplay)
  catch e => return .error (.disk (causeOf e) file)

def drawWords (count : Nat) : IO (Array UInt32) := do
  let bytes ← IO.getRandomBytes (USize.ofNat (4 * count))
  return Array.ofFn fun i : Fin count =>
    (List.range 4).foldl (fun word k => word * 256 + (bytes.get! (4 * i + k)).toUInt32) 0

/-- Surfaces and pictures are written as plain text, surfaces without a word about it if they cannot be. There are no
windows. -/
def answer : Request → IO (Option (Fault Float))
  | .saveSurface s file =>
      match surfaceFile s file >>= fun name => Desk.onFile name (.ok name) with
      | .ok name => do
          let _ ← faultOf name fun f => IO.FS.writeFile f s.text
          return none
      | .error e => return some e
  | .savePicture p file =>
      match pictureFile p file >>= fun name => Desk.onFile name (.ok name) with
      | .ok name => faultOf name fun f => IO.FS.writeFile f p.text
      | .error e => return some e
  | .draw p =>
      match drawn p with
      | .ok _ => return none
      | .error e => return some e
  | .showScene | .showPicture => return some (.foreign .surroundings "no display")
  | _ => return none

def printLine (line : Text) : IO (Option (Fault Float)) :=
  faultOf [] fun _ => IO.println line.toDisplay

def noteNow (log : IO.Ref Log) (r : Record) : IO Unit := do
  let before ← log.get
  log.modify fun l => l.add r
  let after ← log.get
  IO.eprint (Text.toDisplay (after.transcript.drop before.transcript.length))
  if let some file := after.file then
    if before.keeps r then
      let handle ← IO.FS.Handle.mk file.toDisplay .append
      handle.putStrLn r.line.toDisplay

def performNow (log : IO.Ref Log) : Action → IO (Option (Fault Float))
  | .note r => do
      noteNow log r
      return none
  | .print line => printLine line
  | .announce steps count => do
      IO.eprint s!"{steps}: {count} "
      return none
  | .endLine => do
      IO.eprintln ""
      return none
  | .makeFolder file =>
      match (Path.ofText file).folder with
      | [] => return none
      | folder => faultOf (Path.root file ++ folder.text) fun f => IO.FS.createDirAll f
  | .write file product => faultOf file fun f => IO.FS.writeFile f product.text
  | .request r => answer r

def machine (log : IO.Ref Log) : System IO where
  setup i := do
    let fault? ←
      match i.logFile with
      | some file => faultOf file fun f => IO.FS.writeFile f ""
      | none => pure none
    if fault?.isNone then
      log.modify fun l => l.setup (if i.verbose then 10 else 30) i.logFile
      IO.eprint (← log.get).transcript.toDisplay
    return fault?
  look task := do
    let config ←
      match task.config? with
      | some file => readFile file
      | none => pure (.ok ByteArray.empty)
    let words ← drawWords 512
    return { read := fun _ => config, chance := fun count => words.take count }
  perform := performNow log
  complain line := do
    IO.eprintln line.toDisplay
    return none

end Arbor.Command

open Arbor.Command in
def main (arguments : List String) : IO UInt32 := do
  match parse (arguments.map Arbor.Text.ofString) with
  | .ok i =>
      match ← (machine (← IO.mkRef .unset)).run i with
      | .exit code => return UInt32.ofNat code
      | .escaped e => do
          IO.eprintln e.message.toDisplay
          return 1
  | .error .help => do
      IO.println usage
      return 0
  | .error .usage => do
      IO.eprintln usage
      return 2
