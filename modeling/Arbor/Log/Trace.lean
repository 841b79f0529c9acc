import Arbor.Log
import Arbor.Text.Quoted
import Arbor.Tree.Asset

namespace Arbor.Trace

open Text (quoted)

def logger (part : String) : Text := rootLogger ++ s!".{part}"

def expanded (initiator : Text) (n : Int) (word : Text) : Record :=
  .debug (logger "l_system")
    s!"Expanded {quoted initiator} over {n} iterations to {word.length} symbols"

def passive (word : Text) : Nat := word.countP fun p => Symbol.ofCodePoint p = .noop

variable {α : Type}

def walked (word : Text) (w : Walk α) : List Record :=
  let segments := (Arbor.segments w.events.toList).length
  let underflows := w.turtle.underflows
  List.replicate underflows (.debug (logger "turtle_3d") "Ignoring ']' with an empty state stack") ++
    [.debug (logger "turtle_3d")
      s!"Interpreted {segments} segments, {passive word} passive symbols, {underflows} unmatched pops"]

def assembled (b : Buffers α) : Record :=
  let vertices := b.mesh.vertexCount
  match b.skeleton with
  | some skeleton =>
      .debug (logger "skeleton") s!"Built skeleton with {skeleton.size} bones for {vertices} vertices"
  | none =>
      .debug (logger "geometry")
        s!"Assembled mesh with {vertices} vertices, {b.mesh.triangleCount} triangles"

def summary (a : Asset α) (vertices : Nat) : List Record :=
  .info (logger "tree_builder")
      s!"Built {a.mode.name} tree: {a.symbols} symbols, {a.segments} segments, {a.leaves} leaves, {vertices} vertices"
    :: if a.underflows = 0 then []
      else [.debug (logger "tree_builder") s!"{a.underflows} unmatched ']' ignored"]

def finished (a : Asset α) : List Record :=
  match a.buffers with
  | some b => assembled b :: summary a b.mesh.vertexCount
  | none => []

def building [Scalar α] (p : TreeParams α) (word : Text) : List Record × Except (Fault α) (Asset α) :=
  match p.checked with
  | .error e => ([], .error e)
  | .ok place =>
      let walk := (p.gait place).walk word
      match Asset.ofWalk p place word.length walk with
      | .error e => (walked word walk, .error e)
      | .ok a => (walked word walk ++ finished a, .ok a)

theorem building_snd [Scalar α] (p : TreeParams α) (word : Text) :
    (building p word).2 = Asset.build p word := by
  unfold building Asset.build
  cases p.checked with
  | error e => rfl
  | ok place =>
    simp only [bind, Except.bind]
    cases Asset.ofWalk p place word.length ((p.gait place).walk word) <;> rfl

def saved (what : String) (path : Text) : Record := .info (logger "visualize") (s!"{what} saved to " ++ path)

/-- What is noted of a window that does not open, and why. -/
def undisplayed (why : Text) : Record :=
  ⟨logger "visualize", 30, "Could not display 3D plot (no display available): " ++ why⟩

end Arbor.Trace
