import Arbor.Tree.Asset

/-!
# Sessions

Several builders and one animator at work. A builder keeps the asset it built last and releases it when
it builds the next; every asset ever built keeps its number. An operation that fails changes nothing.
-/

namespace Arbor

/-- A tree that the animator moves, by the number of its asset, with a phase of its own. -/
structure Instance (α : Type) where
  asset : Nat
  phase : α
  deriving Repr

/-- All assets by number, the asset that each builder holds, and what the animator moves. -/
structure Session (α : Type) where
  assets : Array (Asset α)
  current : Array (Option Nat)
  settings : BoneSway α
  instances : List (Instance α)

namespace Session

/-- What can be asked of a session. Builders and assets are named by number. -/
inductive Operation (α : Type) where
  | build (builder : Int) (params : TreeParams α) (word : Text)
  | buildGrammar (builder : Int) (params : TreeParams α) (grammar : Grammar) (initiator : Text)
      (n : Int)
  | grow (builder : Int) (params : TreeParams α) (grammar : Grammar) (initiator : Text) (n : Int)
      (draws : Option Nat)
  | clear (builder : Int)
  | dispose (asset : Int)
  | sway (asset : Int) (time : α) (wind : Wind α) (settings : SwaySettings α) (phase : α)
  | builderSway (builder : Int) (asset : Option Int) (time : α) (wind : Wind α)
      (settings : SwaySettings α) (phase : α)
  | addInstance (asset : Int) (phase : α)
  | clearInstances
  | animate (time : α) (wind : Wind α)
  | posed (time : α) (wind : Wind α)

inductive Answer (α : Type) where
  | nothing
  | count (n : Nat)
  | built (number : Nat) (asset : Asset α)
  | grown (assets : List (Nat × Asset α))
  | rows (vs : List (Vec3 α))
  | poses (poses : List (List (Vec3 α)))

variable {α : Type}

def start (builders : Nat) (settings : BoneSway α) : Session α :=
  ⟨#[], Array.replicate builders none, settings, []⟩

def asset (s : Session α) (i : Int) : Except (Fault α) (Asset α) := atPlace s.assets i

def live (s : Session α) : List Nat :=
  (List.range s.assets.size).filter fun i => (s.assets[i]?).any fun a => !a.isDisposed

def builder (s : Session α) (b : Int) : Except (Fault α) Nat :=
  match place? s.current.size b with
  | some i => .ok i
  | none => .error .outOfRange

def held (s : Session α) (b : Nat) : Option Nat := (s.current[b]?).join

def release (s : Session α) (i : Nat) : Session α := { s with assets := s.assets.modify i Asset.dispose }

def clear (s : Session α) (b : Nat) : Session α :=
  match s.held b with
  | some i => { s.release i with current := s.current.setIfInBounds b none }
  | none => s

def install (s : Session α) (b : Nat) (a : Asset α) : Session α :=
  let cleared := s.clear b
  { cleared with
    assets := cleared.assets.push a
    current := cleared.current.setIfInBounds b (some cleared.assets.size) }

def keep (s : Session α) (b : Nat) (built : Except (Fault α) (Asset α)) :
    Session α × Except (Fault α) (Nat × Asset α) :=
  match built with
  | .ok a => (s.install b a, .ok (s.assets.size, a))
  | .error e => (s, .error e)

variable [Scalar α]

/-- Build words one after another, each in place of the one before. -/
def keepAll (s : Session α) (b : Nat) (p : TreeParams α) :
    List Text → Session α × Except (Fault α) (List (Nat × Asset α))
  | [] => (s, .ok [])
  | word :: rest =>
      match s.keep b (Asset.build p word) with
      | (s, .error e) => (s, .error e)
      | (s, .ok drawn) =>
          match keepAll s b p rest with
          | (s, .error e) => (s, .error e)
          | (s, .ok more) => (s, .ok (drawn :: more))

/-- The words of a growth that are drawn; when none is, nothing is looked at. -/
def drawnWords (p : TreeParams α) (g : Grammar) (initiator : Text) (n : Int) :
    Option Nat → Except (Fault α) (List Text)
  | some 0 => .ok []
  | draws => do
      p.validate
      g.draw initiator n draws

def animate (s : Session α) (time : α) (wind : Wind α) : Except (Fault α) (List (List (Vec3 α))) :=
  if s.instances.isEmpty then .ok []
  else do
    wind.validate
    s.instances.mapM fun i => do
      s.settings.turns (← (← s.asset i.asset).requireSkeleton).radii time wind i.phase

def posed (s : Session α) (time : α) (wind : Wind α) : Except (Fault α) (List (List (Vec3 α))) := do
  let turns ← s.animate time wind
  (s.instances.zip turns).mapM fun (i, turns) => do
    let a ← s.asset i.asset
    let mesh ← a.requireMesh
    (← a.requireSkeleton).skin mesh (some turns)

def addInstance (s : Session α) (i : Int) (phase : α) : Except (Fault α) (Session α) := do
  let a ← s.asset i
  if a.mode ≠ .skinned then throw .notSkinned
  let _ ← a.requireMesh
  match place? s.assets.size i with
  | some number => return { s with instances := s.instances ++ [⟨number, phase⟩] }
  | none => throw .outOfRange

def chosen (s : Session α) (b : Int) : Option Int → Except (Fault α) (Asset α)
  | some i => s.asset i
  | none => do
      match s.held (← s.builder b) with
      | some number => s.asset number
      | none => throw .nothingBuilt

/-- An answer that leaves the session as it is. -/
def answered (s : Session α) (answer : Except (Fault α) (Answer α)) :
    Session α × Except (Fault α) (Answer α) :=
  (s, answer)

def atBuilder {β : Type} (s : Session α) (b : Int) (answer : β → Answer α)
    (act : Nat → Session α × Except (Fault α) β) : Session α × Except (Fault α) (Answer α) :=
  match s.builder b with
  | .error e => (s, .error e)
  | .ok b =>
      match act b with
      | (s, .ok result) => (s, .ok (answer result))
      | (s, .error e) => (s, .error e)

def perform (s : Session α) : Operation α → Session α × Except (Fault α) (Answer α)
  | .build b p word =>
      s.atBuilder b (fun (number, a) => .built number a) fun b => s.keep b (Asset.build p word)
  | .buildGrammar b p g initiator n =>
      s.atBuilder b (fun (number, a) => .built number a) fun b =>
        s.keep b (Asset.buildGrammar p g initiator n)
  | .grow b p g initiator n draws =>
      s.atBuilder b .grown fun b =>
        match drawnWords p g initiator n draws with
        | .ok words => s.keepAll b p words
        | .error e => (s, .error e)
  | .clear b => s.atBuilder b (fun () => .nothing) fun b => (s.clear b, .ok ())
  | .dispose i =>
      match place? s.assets.size i with
      | some number => (s.release number, .ok .nothing)
      | none => (s, .error .outOfRange)
  | .sway i time wind settings phase =>
      s.answered do return .rows (← (← s.asset i).sway time wind settings phase)
  | .builderSway b i time wind settings phase =>
      s.answered do return .rows (← (← s.chosen b i).sway time wind settings phase)
  | .addInstance i phase =>
      match s.addInstance i phase with
      | .ok s => (s, .ok (.count s.instances.length))
      | .error e => (s, .error e)
  | .clearInstances => ({ s with instances := [] }, .ok .nothing)
  | .animate time wind => s.answered do return .poses (← s.animate time wind)
  | .posed time wind => s.answered do return .poses (← s.posed time wind)

/-- Carry out operations one after another, whether or not they succeed. -/
def run (s : Session α) (operations : List (Operation α)) : Session α :=
  operations.foldl (fun s operation => (s.perform operation).1) s

end Session

end Arbor
