import Arbor.Command.Arguments
import Arbor.Command.Path
import Arbor.Config.Load
import Arbor.Export.Lines
import Arbor.Export.Preview
import Arbor.Export.Surface
import Arbor.Fault.Message
import Arbor.Log.Trace
import Arbor.Wind.Gust

/-!
# Plans

What a task does, worked out before any of it is done: its actions in order, and the fault that it ends in, if it does.
-/

namespace Arbor.Command

/-- What a file holds that a task writes. -/
inductive Product where
  | frames (fs : List (List (Vec3 Float)))
  | bones (a : SkeletonArchive Float)

/-- What a task leaves to the libraries that draw pictures and know the formats of meshes. -/
inductive Request where
  | saveSurface (s : Surface Float) (file : Text)
  | hideWindows
  | draw (p : Preview Float)
  | savePicture (p : Preview Float) (file : Text)
  | showPicture
  | closePicture
  | openScene
  | addSurface (s : Surface Float)
  | addLines (l : BoneLines Float)
  | addAxes
  | showScene

inductive Action where
  | note (r : Record)
  | print (line : Text)
  | announce (steps : String) (count : Nat)
  | endLine
  | makeFolder (file : Text)
  | write (file : Text) (product : Product)
  | request (r : Request)

/-- What is noted in place of a fault of an action. A scene that cannot be shown stops nothing, unless what it meets is
no fault at all but a run that is stopped from outside. -/
def Action.excuse? (a : Action) (e : Fault Float) : Option Record :=
  match a with
  | .request .showScene => if e.kind = .interrupt then none else some (Trace.undisplayed e.message)
  | _ => none

/-- A computation that lines up actions. -/
structure Plan (β : Type) where
  actions : List Action
  result : Except (Fault Float) β

namespace Plan

variable {β δ : Type}

protected def pure (x : β) : Plan β := ⟨[], .ok x⟩

protected def bind (p : Plan β) (f : β → Plan δ) : Plan δ :=
  match p.result with
  | .ok x => ⟨p.actions ++ (f x).actions, (f x).result⟩
  | .error e => ⟨p.actions, .error e⟩

instance : Monad Plan where
  pure := Plan.pure
  bind := Plan.bind

def of (r : Except (Fault Float) β) : Plan β := ⟨[], r⟩

def act (a : Action) : Plan Unit := ⟨[a], .ok ()⟩

def acts (as : List Action) : Plan Unit := ⟨as, .ok ()⟩

def fail (e : Fault Float) : Plan β := of (.error e)

def fault? (p : Plan β) : Option (Fault Float) :=
  match p.result with
  | .ok _ => none
  | .error e => some e

end Plan

abbrev Reader := Text → Except (Fault Float) ByteArray

/-- What a task finds: the files as they can be read, and a source of words by chance that gives any number of them. -/
structure World where
  read : Reader
  chance : Nat → Array UInt32

/-- The parameters that options can change, in the order in which they are looked at. -/
def changeable (p : TreeParams Float) : List (Text × Float) :=
  [("start_radius", p.startRadius), ("radius_reduction", p.radiusReduction),
   ("branch_length", p.branchLength), ("angle", p.angle)]

/-- Look at the parameters as far as the first of the blanks. -/
def refuseBlanks (p : TreeParams Float) (blanks : List Text) : Except (Fault Float) Unit := do
  if blanks.isEmpty then return
  ((changeable p).takeWhile fun entry => !blanks.contains entry.1).forM fun (name, x) =>
    TreeParams.requireFinite name.toDisplay x
  throw .nothingGiven

namespace Source

def entries (s : Source) : List (Text × Value Float) :=
  s.overrides.entries ++ s.blanks.map fun name => (name, .list [])

def load (read : Reader) (s : Source) : Except (Fault Float) (TreeConfig Float) := do
  let c ←
    match s.config with
    | some path => do
        let c ← TreeConfig.ofBytes path (← read path)
        refuseBlanks (s.overrides.apply c.tree) s.blanks
        c.override s.overrides
    | none => TreeConfig.ofPreset (← s.preset.get "Default") s.entries
  match s.iterations with
  | .value n => return { c with iterations := n }
  | _ => return c

def checkIterations (s : Source) : Except (Fault Float) Unit := do
  let _ ← s.iterations.get 0

end Source

namespace Task

open Plan (of act acts fail)

def wordOf (c : TreeConfig Float) : Plan Text := do
  let word ← of (c.grammar.generate c.initiator c.iterations)
  act (.note (Trace.expanded c.initiator c.iterations word))
  return word

def assetOf (c : TreeConfig Float) : Plan (Asset Float) := do
  of c.tree.validate
  let (records, a) := Trace.building c.tree (← wordOf c)
  acts (records.map .note)
  of a

def saveMesh (m : Mesh Float) (file : Text) : Plan Unit := do
  act (.makeFolder file)
  act (.request (.saveSurface (m.surface none) file))
  act (.note (Trace.saved "Mesh" file))

def saveSkeleton (s : Skeleton Float) (file : Text) : Plan Unit := do
  act (.makeFolder file)
  act (.write (Path.withExtension ".npz" file) (.bones (← of s.archive)))
  act (.note (Trace.saved "Skeleton" file))

def savePicture (p : Preview Float) (file : Text) : Plan Unit := do
  act (.makeFolder file)
  act (.request (.savePicture p file))
  act (.note (Trace.saved "Preview" file))

/-- Show a tree in a scene, with lines for its bones where it has more than the root. -/
def viewTree (m : Mesh Float) (bones : Option (Skeleton Float)) : Plan Unit := do
  act (.request .openScene)
  if !m.isEmpty then act (.request (.addSurface (m.surface none)))
  match bones with
  | some s => if 1 < s.size then act (.request (.addLines (← of s.lines)))
  | none => pure ()
  act (.request .addAxes)
  act (.request .showScene)

def frameTime (rate : Float) (k : Nat) : Except (Fault Float) Float :=
  if rate == 0 then .error .divisionByZero else .ok (Scalar.ofInt k / rate)

def windAt (wind : Wind Float) (gusts : Option (Gusts Float)) (time : Float) :
    Except (Fault Float) (Wind Float) :=
  match gusts with
  | none => .ok wind
  | some g => do return wind.withNoise (some (← g.sample time))

def pose (a : Asset Float) (time : Float) (wind : Wind Float) :
    Except (Fault Float) (List (Vec3 Float)) := do
  let sway ← a.sway time wind SwaySettings.standard 0
  let mesh ← a.requireMesh
  match a.mode with
  | .skinned => return (← (← a.requireSkeleton).skin mesh (some sway)).map Vec3.single
  | .static => return (mesh.positions.zip sway).map fun (p, s) => (p + s).single

def frames (a : Asset Float) (wind : Wind Float) (gusts : Option (Gusts Float)) (rate : Choice Float)
    (k : Nat) : Nat → Except (Fault Float) (List (List (Vec3 Float)))
  | 0 => .ok []
  | count + 1 => do
      let time ← frameTime (← rate.get 30.0) k
      let vertices ← pose a time (← windAt wind gusts time)
      return vertices :: (← frames a wind gusts rate (k + 1) count)

/-- The gusts of a seed; without a seed, gusts by chance. Nothing is no seed. -/
def gustsOf (chance : Nat → Array UInt32) (noise : Bool) (seed : Choice Int) :
    Except (Fault Float) (Option (Gusts Float)) :=
  if !noise then .ok none
  else
    match seed with
    | .usual => do return some (← Gusts.ofWords 0.5 256 chance)
    | .nothing => .error .seed
    | .value n => do return some (← Gusts.ofSeed 0.5 256 n)

def frameCount (count : Int) : Except (Fault Float) Nat :=
  if count < Int.pow 2 63 then .ok count.toNat else .error .notStorable

def presetFile (p : Preset) (format : Text) : Text :=
  Text.ofString (String.ofList (p.name.toList.map fun c => if c = ' ' then '_' else c.toLower)) ++ format

def padded (width : Nat) (s : String) : String :=
  s ++ String.ofList (List.replicate (width - s.length) ' ')

def presetLine (p : Preset) : String := s!"{padded 16 p.name} {padded 10 p.initiator} {p.description}"

def savedLine (frames vertices : Nat) (output : Text) : Text :=
  s!"Saved {frames} frames of {vertices} vertices to " ++ output

def planGenerate (w : World) (source : Source) (lengthOnly : Bool) : Plan Unit := do
  let c ← of (source.load w.read)
  of source.checkIterations
  let word ← wordOf c
  act (.print (if lengthOnly then Text.ofString (toString word.length) else word))

def planBuild (w : World) (source : Source) (output : Text) (skeleton : Option Text) : Plan Unit := do
  let c ← of (source.load w.read)
  if skeleton.isSome ∧ c.tree.mode ≠ .skinned then fail .skeletonUnskinned
  of source.checkIterations
  let a ← assetOf c
  let mesh ← of a.requireMesh
  saveMesh mesh output
  match skeleton with
  | some file => saveSkeleton (← of a.requireSkeleton) file
  | none => pure ()
  act (.print (c.name ++
    s!": {a.segments} segments, {a.leaves} leaves, {mesh.vertexCount} vertices, {mesh.triangleCount} triangles"))

def planRender (w : World) (source : Source) (output : Text) (elevation azimuth : Choice Float)
    (displays interactive : Bool) : Plan Unit := do
  let c ← of (source.load w.read)
  of source.checkIterations
  let a ← assetOf c
  let mesh ← of a.requireMesh
  let picture := mesh.preview none (elevation.toOption 20.0) (azimuth.toOption 45.0)
  if !displays then act (.request .hideWindows)
  act (.request (.draw picture))
  if !output.isEmpty then savePicture picture output
  if displays then act (.request .showPicture)
  act (.request .closePicture)
  if interactive then viewTree mesh a.skeleton?

def planAnimate (w : World) (source : Source) (output : Text) (count : Choice Int) (rate : Choice Float)
    (noise : Bool) (seed : Choice Int) : Plan Unit := do
  let c ← of (source.load w.read)
  of source.checkIterations
  let a ← assetOf c
  let gusts ← of (gustsOf w.chance noise seed)
  let count ← of (frameCount (← of (count.get 60)))
  act (.announce "Frames" count)
  let frames ← of (frames a c.wind gusts rate 0 count)
  act .endLine
  let mesh ← of a.requireMesh
  act (.makeFolder output)
  if frames.isEmpty then fail .shape
  act (.write (Path.withExtension ".npy" output) (.frames frames))
  act (.print (savedLine frames.length mesh.vertexCount output))

def planPresets (folder : Option Text) (format : Choice Text) : Plan Unit :=
  match folder with
  | none => acts (Preset.all.map fun p => .print (presetLine p))
  | some folder => do
      act (.announce "Presets" Preset.all.length)
      Preset.all.forM fun p => do
        let a ← assetOf (← of (TreeConfig.ofPreset p.name []))
        let format ← of (format.get ".vtk")
        saveMesh (← of a.requireMesh) (Path.join folder (presetFile p format))
      act .endLine

def plan (w : World) : Task → Plan Unit
  | .generate source lengthOnly => planGenerate w source lengthOnly
  | .build source output skeleton => planBuild w source output skeleton
  | .render source output elevation azimuth displays interactive =>
      planRender w source output elevation azimuth displays interactive
  | .animate source output count rate noise seed => planAnimate w source output count rate noise seed
  | .presets folder format => planPresets folder format

end Task

end Arbor.Command
