import Arbor.Command.Flag
import Arbor.Config.Preset
import Arbor.Text.Numeral

namespace Arbor.Command

/-- What an option stands at: its usual value, nothing at all, or a value of its own. -/
inductive Choice (β : Type) where
  | usual
  | nothing
  | value (x : β)
  deriving DecidableEq, Repr

def Choice.toOption {β : Type} (c : Choice β) (usual : β) : Option β :=
  match c with
  | .usual => some usual
  | .nothing => none
  | .value x => some x

def Choice.get {α β : Type} (c : Choice β) (usual : β) : Except (Fault α) β :=
  match c.toOption usual with
  | some x => .ok x
  | none => .error .nothingGiven

structure Source where
  preset : Choice Text
  config : Option Text
  iterations : Choice Int
  overrides : Overrides Float
  blanks : List Text
  deriving Repr

inductive Task where
  | generate (source : Source) (lengthOnly : Bool)
  | build (source : Source) (output : Text) (skeleton : Option Text)
  | render (source : Source) (output : Text) (elevation azimuth : Choice Float) (displays interactive : Bool)
  | animate (source : Source) (output : Text) (frames : Choice Int) (rate : Choice Float) (noise : Bool)
      (seed : Choice Int)
  | presets (folder : Option Text) (format : Choice Text)
  deriving Repr

def Task.config? : Task → Option Text
  | .generate source _ | .build source .. | .render source .. | .animate source .. => source.config
  | .presets .. => none

structure Invocation where
  verbose : Bool
  logFile : Option Text
  task : Task
  deriving Repr

inductive Refusal where
  | help
  | usage
  deriving DecidableEq, Repr

inductive Kind where
  | help
  | switch
  | text
  | integer
  | number
  | choice (words : List Text)
  deriving DecidableEq, Repr

structure Setting where
  flag : Flag
  kind : Kind
  deriving DecidableEq, Repr

def Setting.named (name : String) (kind : Kind) : Setting :=
  ⟨⟨name, [], kind ≠ .switch ∧ kind ≠ .help⟩, kind⟩

inductive Given where
  | on
  | nothing
  | text (t : Text)
  | integer (n : Int)
  | number (x : Float)
  deriving Repr

namespace Given

def text? : Given → Option Text
  | text t => some t
  | _ => none

def integer? : Given → Option Int
  | integer n => some n
  | _ => none

def number? : Given → Option Float
  | number x => some x
  | _ => none

end Given

def helpSetting : Setting := ⟨⟨"--help", ["-h"], false⟩, .help⟩

def mainSettings : List Setting :=
  [helpSetting, ⟨⟨"--verbose", ["-v"], false⟩, .switch⟩, .named "--log_file" .text]

def sourceSettings : List Setting :=
  [helpSetting, .named "--preset" (.choice Preset.names), .named "--config" .text,
   .named "--iterations" .integer, .named "--start_radius" .number, .named "--radius_reduction" .number,
   .named "--branch_length" .number, .named "--angle" .number,
   .named "--mode" (.choice [(Mode.static.name : Text), (Mode.skinned.name : Text)])]

def Kind.read? (kind : Kind) (w : Word) : Option Given :=
  if w = Text.ofString "--" then some .nothing
  else
    match kind with
    | .text => some (.text w)
    | .integer => (w.chars?.bind Text.integer?).map .integer
    | .number => (w.chars?.bind Text.number?).map .number
    | .choice words => if words.contains w then some (.text w) else none
    | .help | .switch => none

def Kind.accept? : Kind → Option Word → Option Given
  | .switch, none => some .on
  | .switch, some _ | .help, _ | _, none => none
  | kind, some w => kind.read? w

structure Reading where
  given : Table Word Given
  arguments : List Text
  command : Option (Word × List Word)
  hasExtra : Bool

namespace Reading

def empty : Reading := ⟨[], [], none, false⟩

/-- The flag that a flag does not go with. -/
def rival? (flag : Word) : Option Word :=
  if flag = Text.ofString "--preset" then some "--config"
  else if flag = Text.ofString "--config" then some "--preset"
  else none

def has (r : Reading) (flag : Word) : Bool := (Table.get? flag r.given).isSome

def step (settings : List Setting) (r : Reading) : Event → Except Refusal Reading
  | .given flag value =>
      match settings.find? fun s => s.flag.name = flag with
      | some ⟨_, .help⟩ => .error .help
      | some ⟨_, kind⟩ =>
          match kind.accept? value with
          | some given =>
              if (rival? flag).any r.has then .error .usage
              else .ok { r with given := Table.put flag given r.given }
          | none => .error .usage
      | none => .error .usage
  | .argument w => .ok { r with arguments := r.arguments ++ [w] }
  | .command name rest => .ok { r with command := some (name, rest) }
  | .extra => .ok { r with hasExtra := true }
  | .mistake => .error .usage

def ofWords (settings : List Setting) (slots : List Slot) (words : List Word) : Except Refusal Reading :=
  (events (settings.map Setting.flag) slots words).foldlM (step settings) empty

def given? (r : Reading) (flag : Text) : Option Given := Table.get? flag r.given

def choice {β : Type} (r : Reading) (flag : Text) (read : Given → Option β) : Choice β :=
  match r.given? flag with
  | none => .usual
  | some given =>
      match read given with
      | some x => .value x
      | none => .nothing

def text? (r : Reading) (flag : Text) : Option Text := (r.given? flag).bind Given.text?

def nonempty? (r : Reading) (flag : Text) : Option Text := (r.text? flag).filter fun t => !t.isEmpty

def number? (r : Reading) (flag : Text) : Option Float := (r.given? flag).bind Given.number?

def isOn (r : Reading) (flag : Text) : Bool := (r.given? flag).isSome

def parameters : List Text := ["start_radius", "radius_reduction", "branch_length", "angle"]

def isBlank (r : Reading) (parameter : Text) : Bool :=
  match r.given? ("--" ++ parameter) with
  | some .nothing => true
  | _ => false

def source (r : Reading) : Source :=
  { preset := r.choice "--preset" Given.text?
    config := r.nonempty? "--config"
    iterations := r.choice "--iterations" Given.integer?
    overrides :=
      { startRadius := r.number? "--start_radius"
        radiusReduction := r.number? "--radius_reduction"
        branchLength := r.number? "--branch_length"
        angle := r.number? "--angle"
        mode := (r.text? "--mode").bind Mode.ofName? }
    blanks := parameters.filter r.isBlank }

end Reading

/-- How a command is read: its settings besides those of the tree, its slots, and what they ask for. -/
structure Form where
  name : String
  settings : List Setting
  slots : List Slot
  task : Reading → Task

def Reading.output (r : Reading) : Text := r.arguments.headD []

def forms : List Form :=
  [{ name := "generate"
     settings := sourceSettings ++ [.named "--length" .switch]
     slots := []
     task := fun r => .generate r.source (r.isOn "--length") },
   { name := "build"
     settings := sourceSettings ++ [.named "--skeleton" .text]
     slots := [.single]
     task := fun r => .build r.source r.output (r.nonempty? "--skeleton") },
   { name := "render"
     settings := sourceSettings ++
       [.named "--elev" .number, .named "--azim" .number, .named "--show" .switch,
        .named "--interactive" .switch]
     slots := [.single]
     task := fun r =>
       .render r.source r.output (r.choice "--elev" Given.number?) (r.choice "--azim" Given.number?)
         (r.isOn "--show") (r.isOn "--interactive") },
   { name := "animate"
     settings := sourceSettings ++
       [.named "--frames" .integer, .named "--fps" .number, .named "--noise" .switch,
        .named "--seed" .integer]
     slots := [.single]
     task := fun r =>
       .animate r.source r.output (r.choice "--frames" Given.integer?) (r.choice "--fps" Given.number?)
         (r.isOn "--noise") (r.choice "--seed" Given.integer?) },
   { name := "presets"
     settings := [helpSetting, .named "--export" .text, .named "--format" .text]
     slots := []
     task := fun r => .presets (r.nonempty? "--export") (r.choice "--format" Given.text?) }]

/-- What a command line asks for. A word that nobody takes is only refused once all have been read. -/
def parse (words : List Word) : Except Refusal Invocation := do
  let main ← Reading.ofWords mainSettings [.command] words
  let some (name, rest) := main.command | throw .usage
  let some form := forms.find? fun f => Text.ofString f.name = name | throw .usage
  let r ← Reading.ofWords form.settings form.slots rest
  if main.hasExtra || r.hasExtra then throw .usage
  return { verbose := main.isOn "--verbose", logFile := main.nonempty? "--log_file", task := form.task r }

end Arbor.Command
