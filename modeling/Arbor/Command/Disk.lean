import Arbor.Command.Path

namespace Arbor.Command

inductive Node (γ : Type) where
  | folder
  | file (content : γ)

structure Disk (γ : Type) where
  nodes : Table Path (Node γ)

namespace Disk

variable {γ : Type}

def empty : Disk γ := ⟨[]⟩

def node? (d : Disk γ) (path : Path) : Option (Node γ) :=
  match path with
  | [] => some .folder
  | _ => Table.get? path d.nodes

def isFolder (d : Disk γ) (path : Path) : Bool :=
  match d.node? path with
  | some .folder => true
  | _ => false

def put (d : Disk γ) (path : Path) (node : Node γ) : Disk γ := ⟨Table.put path node d.nodes⟩

/-- Where the pieces of a text lead from a folder. What the last of them names need not be there, but every folder on
the way has to be. -/
def locate (d : Disk γ) (here : Path) : List Text → Except DiskFault Path
  | [] => .ok here
  | piece :: rest =>
      if Path.isIdle piece then d.locate here rest
      else if Path.isUpward piece then d.locate here.dropLast rest
      else if Path.nameLimit < Path.byteCount piece then .error .nameTooLong
      else
        match rest, d.node? (here ++ [piece]) with
        | [], _ => .ok (here ++ [piece])
        | _, some .folder => d.locate (here ++ [piece]) rest
        | _, some (.file _) => .error .notDirectory
        | _, none => .error .missing

def read (d : Disk γ) (pieces : List Text) : Except DiskFault γ := do
  match d.node? (← d.locate [] pieces) with
  | some (.file content) => return content
  | some .folder => throw .isDirectory
  | none => throw .missing

def write (d : Disk γ) (pieces : List Text) (content : γ) : Except DiskFault (Disk γ) := do
  let path ← d.locate [] pieces
  if d.isFolder path then throw .isDirectory
  return d.put path (.file content)

def makeFolders {α : Type} (d : Disk γ) (root : Text) (here : Path) :
    List Text → Except (Fault α) (Disk γ)
  | [] => .ok d
  | name :: rest => do
      Path.checkName name
      match d.node? (here ++ [name]) with
      | some .folder => d.makeFolders root (here ++ [name]) rest
      | some (.file _) =>
          match rest with
          | [] => throw (.disk .exists (root ++ Path.text (here ++ [name])))
          | next :: _ => do
              Path.checkName next
              throw (.disk .notDirectory (root ++ Path.text (here ++ [name, next])))
      | none =>
          let made := root ++ Path.text (here ++ [name])
          if Path.nameLimit < Path.byteCount name ∨ Path.textLimit < Path.byteCount made then
            throw (.disk .nameTooLong made)
          (d.put (here ++ [name]) .folder).makeFolders root (here ++ [name]) rest

def missing (d : Disk γ) (path : Path) : Nat :=
  (List.range path.length).countP fun k => (d.node? (path.take (k + 1))).isNone

def files (d : Disk γ) : List Path :=
  d.nodes.filterMap fun (path, node) =>
    match node with
    | .file _ => some path
    | .folder => none

end Disk

end Arbor.Command
