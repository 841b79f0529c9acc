namespace Arbor

structure Triangle (ι : Type) where
  a : ι
  b : ι
  c : ι
  deriving DecidableEq, Repr

namespace Triangle

variable {ι κ : Type}

def map (f : ι → κ) (t : Triangle ι) : Triangle κ := ⟨f t.a, f t.b, f t.c⟩

def toList (t : Triangle ι) : List ι := [t.a, t.b, t.c]

end Triangle

/-- An index buffer: triangles, or what a primitive without any face leaves, rows that name no vertex. The two do not
stack. -/
inductive Faces where
  | triangles (rows : List (Triangle UInt32))
  | hollow (rows : Nat)
  deriving DecidableEq, Repr

namespace Faces

def ofPrimitive : List (Triangle Nat) → Faces
  | [] => hollow 1
  | faces => triangles (faces.map (Triangle.map UInt32.ofNat))

def rowCount : Faces → Nat
  | triangles rows => rows.length
  | hollow rows => rows

def toTriangles : Faces → List (Triangle UInt32)
  | triangles rows => rows
  | hollow _ => []

def flat (f : Faces) : List UInt32 := f.toTriangles.flatMap Triangle.toList

def shifted (offset : Nat) : Faces → Faces
  | triangles rows => triangles (rows.map (Triangle.map (· + UInt32.ofNat offset)))
  | hollow rows => hollow rows

def append? : Faces → Faces → Option Faces
  | triangles a, triangles b => some (triangles (a ++ b))
  | hollow a, hollow b => some (hollow (a + b))
  | _, _ => none

/-- A stack of index buffers, when they are of one width. -/
def stack? : List Faces → Option Faces
  | [] => some (triangles [])
  | [f] => some f
  | f :: rest => do f.append? (← stack? rest)

end Faces

end Arbor
