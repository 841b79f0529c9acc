import Arbor.Config.Entry
import Arbor.Grammar
import Arbor.Params
import Arbor.Wind.Basic

namespace Arbor

/-- A tree to be grown: its initiator, how often the rules are applied to it, and what is built then. -/
structure TreeConfig (α : Type) where
  name : Text
  initiator : Text
  iterations : Int
  rules : Table CodePoint Text
  tree : TreeParams α
  wind : Wind α
  deriving Repr

structure Overrides (α : Type) where
  startRadius : Option α := none
  radiusReduction : Option α := none
  branchLength : Option α := none
  angle : Option α := none
  mode : Option Mode := none
  deriving Repr

namespace Overrides

variable {α : Type}

def entries (o : Overrides α) : List (Text × Value α) :=
  [("start_radius", o.startRadius.map .real), ("radius_reduction", o.radiusReduction.map .real),
   ("branch_length", o.branchLength.map .real), ("angle", o.angle.map .real),
   ("mode", o.mode.map fun mode => .text mode.name)].filterMap fun (name, entry) =>
    entry.map fun v => (name, v)

def apply (o : Overrides α) (p : TreeParams α) : TreeParams α :=
  { p with
    startRadius := o.startRadius.getD p.startRadius
    radiusReduction := o.radiusReduction.getD p.radiusReduction
    branchLength := o.branchLength.getD p.branchLength
    angle := o.angle.getD p.angle
    mode := o.mode.getD p.mode }

end Overrides

variable {α : Type} [Scalar α]

open Value (entry toNumber toNumber? toInteger toText toObject toTriple)

def Mode.ofEntry (v : Value α) : Except (Fault α) Mode := do
  let name ← v.toText "tree.mode"
  match Mode.ofName? name with
  | some mode => return mode
  | none => throw (.unknownMode name)

def TreeParams.ofEntries (fields : Table Text (Value α)) : Except (Fault α) (TreeParams α) := do
  let standard : TreeParams α := TreeParams.standard
  let mode ← entry fields "mode" standard.mode Mode.ofEntry
  let startRadius ← entry fields "start_radius" standard.startRadius (toNumber "tree.start_radius")
  let radiusReduction ←
    entry fields "radius_reduction" standard.radiusReduction (toNumber "tree.radius_reduction")
  let branchLength ← entry fields "branch_length" standard.branchLength (toNumber "tree.branch_length")
  let angle ← entry fields "angle" standard.angle (toNumber "tree.angle")
  let position ← entry fields "position" standard.position (toTriple "tree.position")
  let radialSegments ←
    entry fields "radial_segments" standard.radialSegments (toInteger "tree.radial_segments")
  let leafRadius ← entry fields "leaf_radius" standard.leafRadius (toNumber "tree.leaf_radius")
  let leafSegments ← entry fields "leaf_segments" standard.leafSegments (toInteger "tree.leaf_segments")
  let params : TreeParams α :=
    { startRadius, radiusReduction, branchLength, angle, mode, position, radialSegments, leafRadius,
      leafSegments }
  params.validate
  return params

def Wind.ofEntries (fields : Table Text (Value α)) : Except (Fault α) (Wind α) := do
  let standard : Wind α := Wind.standard
  let direction ← entry fields "direction" standard.direction (toTriple "wind.direction")
  let strength ← entry fields "strength" standard.strength (toNumber "wind.strength")
  let noise ← entry fields "noise_sample" standard.noise (toNumber? "wind.noise_sample")
  let wind : Wind α := { direction, strength, noise }
  wind.validate
  return wind

namespace TreeConfig

def ruleOf (rule : Text × Value α) : Except (Fault α) (CodePoint × Text) :=
  match rule.1 with
  | [symbol] => do return (symbol, ← rule.2.toText ("rules['" ++ rule.1 ++ "']"))
  | _ => .error .ruleKey

def ofValue (v : Value α) : Except (Fault α) (TreeConfig α) := do
  let fields ← v.toObject "root"
  let initiator ← entry fields "axiom" ([] : Text) (toText "axiom")
  if initiator.isEmpty then throw .emptyAxiom
  let iterations ← entry fields "iterations" 6 (toInteger "iterations")
  if iterations < 0 then throw .iterationsBelowZero
  let rules ← (← entry fields "rules" [] (toObject "rules")).mapM ruleOf
  let name ← entry fields "name" (Text.ofString "Tree") (toText "name")
  let tree ← TreeParams.ofEntries (← entry fields "tree" [] (toObject "tree"))
  let wind ← Wind.ofEntries (← entry fields "wind" [] (toObject "wind"))
  return { name, initiator, iterations, rules, tree, wind }

/-- The same tree with overrides, when they leave it usable. -/
def override (c : TreeConfig α) (o : Overrides α) : Except (Fault α) (TreeConfig α) := do
  let tree := o.apply c.tree
  tree.validate
  return { c with tree := tree }

omit [Scalar α] in
def grammar (c : TreeConfig α) : Grammar := ⟨c.rules.map fun (symbol, word) => (symbol, some word)⟩

end TreeConfig

end Arbor
