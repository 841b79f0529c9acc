import Arbor.Config

namespace Arbor

structure Preset where
  name : String
  initiator : String
  rules : List (Char × String)
  angle : Int
  iterations : Int
  description : String
  deriving DecidableEq, Repr

namespace Preset

def all : List Preset :=
  [{ name := "Default"
     initiator := "fffffA"
     rules := [('A', "^fB+^^B+vvB<<<<B"), ('B', "[^^ff--A]")]
     angle := 10
     iterations := 6
     description := "Tall trunk with a spiralling crown" },
   { name := "Preset 1"
     initiator := "fA"
     rules := [('A', "f[^Bl]>>[^Bl]>>A"), ('B', "f[-Bl]B")]
     angle := 10
     iterations := 6
     description := "Leafy side shoots around a straight leader" },
   { name := "Preset 2"
     initiator := "B"
     rules := [('A', "f[^B][-B]B"), ('B', "f[+B]F")]
     angle := 10
     iterations := 6
     description := "One-sided shoots, F is carried along as a passive symbol" },
   { name := "Preset 3"
     initiator := "AB"
     rules := [('A', "f[+B]A"), ('B', "f[-A]B")]
     angle := 10
     iterations := 6
     description := "Two interleaved stems branching to opposite sides" },
   { name := "dichotomous"
     initiator := "fA"
     rules := [('A', "f[+A][-A]")]
     angle := 25
     iterations := 5
     description := "Simple dichotomous forking" },
   { name := "dichotomous_3d"
     initiator := "fA"
     rules := [('A', "f[+A]>>>>[-A]")]
     angle := 25
     iterations := 5
     description := "Forking with a roll between forks" },
   { name := "bushy"
     initiator := "A"
     rules := [('A', "f[+Al]<<[+Al]<<[+Al]"), ('f', "ff")]
     angle := 22
     iterations := 4
     description := "Bush with three shoots per whorl and leaves on the tips" },
   { name := "monopodial"
     initiator := "A"
     rules := [('A', "f[+B]>>>[+B]>>>fA"), ('B', "f[-Cl][+Cl]"), ('C', "f")]
     angle := 30
     iterations := 6
     description := "Straight leader with alternating lateral shoots" },
   { name := "herringbone"
     initiator := "A"
     rules := [('A', "f[-fl]f[+fl]A")]
     angle := 35
     iterations := 6
     description := "Herringbone branching pattern" }]

def find? (name : Text) : Option Preset := all.find? fun p => (p.name : Text) = name

def names : List Text := (all.map fun p => (p.name : Text)).mergeSort Text.le

variable {α : Type}

def toValue (p : Preset) (entries : List (Text × Value α)) : Value α :=
  .object
    [("name", .text p.name),
     ("axiom", .text p.initiator),
     ("iterations", .int p.iterations),
     ("rules", .object (p.rules.map fun (symbol, word) => ([.scalar symbol], .text word))),
     ("tree", .object (Table.ofList (("angle", .int p.angle) :: entries)))]

end Preset

/-- The tree of a preset, some of its parameters replaced. Its name is not among them. -/
def TreeConfig.ofPreset {α : Type} [Scalar α] (name : Text) (entries : List (Text × Value α)) :
    Except (Fault α) (TreeConfig α) :=
  if (Value.field? "name" entries).isSome then .error .givenTwice
  else
    match Preset.find? name with
    | some preset => ofValue (preset.toValue entries)
    | none => .error (.unknownPreset name Preset.names)

end Arbor
