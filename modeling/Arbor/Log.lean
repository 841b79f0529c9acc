import Arbor.Text.Lines

/-!
# The log

Records of what the library does. They go to the console and, on request, to a file too; those below
the level of the log are dropped. Of the records of others, warnings and graver ones reach the console
without any heading.
-/

namespace Arbor

structure Record where
  logger : Text
  level : Int
  message : Text
  deriving DecidableEq, Repr

def rootLogger : Text := "lsystem_trees"

namespace Record

def levelName? : Int → Option String
  | 0 => some "NOTSET"
  | 10 => some "DEBUG"
  | 20 => some "INFO"
  | 30 => some "WARNING"
  | 40 => some "ERROR"
  | 50 => some "CRITICAL"
  | _ => none

def levelText (r : Record) : String :=
  let name := (levelName? r.level).getD s!"Level {r.level}"
  name ++ String.ofList (List.replicate (7 - name.length) ' ')

def line (r : Record) : Text := s!"{r.levelText} " ++ r.logger ++ ": " ++ r.message

/-- Half of a pair cannot be written to a file. -/
def isWritable (r : Record) : Bool := r.line.all fun p => p.char?.isSome

def debug (logger message : Text) : Record := ⟨logger, 10, message⟩
def info (logger message : Text) : Record := ⟨logger, 20, message⟩

end Record

/-- Whether a logger stands below that of the library, by its name from the last character to the first. A
logger stands below the nearest one among those met so far whose name is its own up to a point. Where one name
has been looked for, the next one ends two characters earlier at least, so that of points side by side every
second one is passed over. -/
def standsBelow (met : List Text) : Text → Bool
  | p :: q :: rest =>
      if p = .scalar '.' then
        if (q :: rest).reverse = rootLogger then true
        else if met.contains (q :: rest).reverse then standsBelow met (q :: rest)
        else standsBelow met rest
      else standsBelow met (q :: rest)
  | _ => false

/-- The level of the log, the file that it goes to, what the console shows, piece by piece, the records in the
file, and the loggers met so far. Only the last content of a file is there. -/
structure Log where
  level : Int
  file : Option Text
  console : List Text
  written : Option (List Record)
  met : List Text
  deriving DecidableEq, Repr

namespace Log

def unset : Log := ⟨0, none, [], none, []⟩

def threshold (l : Log) : Int := if l.level = 0 then 30 else l.level

def owns (l : Log) (r : Record) : Bool := r.logger = rootLogger || standsBelow l.met r.logger.reverse

def keeps (l : Log) (r : Record) : Bool := l.owns r && 0 < r.level && l.threshold ≤ r.level

def say (l : Log) (piece : Text) : Log := { l with console := l.console ++ [piece] }

def transcript (l : Log) : Text := l.console.flatten

def passes (l : Log) (r : Record) : Bool := !l.owns r && 30 ≤ r.level

def meet (l : Log) (logger : Text) : Log :=
  if l.met.contains logger then l else { l with met := logger :: l.met }

def add (l : Log) (r : Record) : Log :=
  let l := l.meet r.logger
  if l.keeps r then
    { l.say (r.line ++ "\n") with
      written := if l.file.isSome ∧ r.isWritable then l.written.map (· ++ [r]) else l.written }
  else if l.passes r then l.say (r.message ++ "\n")
  else l

def addAll (l : Log) (records : List Record) : Log := records.foldl add l

def destination : Option Text → Text
  | some path => "Logging to stderr and " ++ path
  | none => "Logging to stderr"

def setup (l : Log) (level : Int) (file : Option Text) : Log :=
  let reset : Log :=
    { level := level
      file := file
      console := l.console
      written := if file.isSome then some [] else l.written
      met := l.met }
  reset.add (.debug rootLogger (destination file))

def levelNames : List Text := ["DEBUG", "INFO", "WARNING", "ERROR", "CRITICAL"]

/-- A line that starts as a record of the library does: the name of a level, blanks, and the logger. -/
def isEntry (line : Text) : Bool :=
  levelNames.any fun name =>
    name.isPrefixOf line &&
      let rest := line.drop name.length
      rest.head? = some (.scalar ' ') && rootLogger.isPrefixOf (rest.dropWhile (· = .scalar ' '))

def entries (l : Log) : List Text := l.transcript.lines.filter isEntry

def handlers (l : Log) : Nat := if l.file.isSome then 2 else 1

end Log

end Arbor
