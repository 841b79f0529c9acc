import Arbor.Value
import Arbor.Mesh.Column

namespace Arbor

/-- What a configuration entry has to be. -/
inductive Expected where
  | number
  | integer
  | text
  | object
  | triple
  deriving DecidableEq, Repr

/-- How a chunk departs from the schema of the mesh it is merged into. -/
inductive Mismatch where
  | names (chunk : Nat) (found expected : List Text)
  | normals (chunk : Nat) (found vertices : Nat)
  | length (name : Text) (chunk : Nat) (found vertices : Nat)
  | dtype (name : Text) (chunk : Nat) (found expected : Dtype)
  | itemShape (name : Text) (chunk : Nat) (found : List Nat)
  deriving DecidableEq, Repr

def Mismatch.chunk : Mismatch → Nat
  | names k .. => k
  | normals k .. => k
  | length _ k .. => k
  | dtype _ k .. => k
  | itemShape _ k _ => k

inductive DiskFault where
  | missing
  | exists
  | notDirectory
  | isDirectory
  | nameTooLong
  /-- Any other refusal, in the words of the system. -/
  | other (message : Text)
  deriving DecidableEq, Repr

/-- The families of faults that callers tell apart. -/
inductive Fault.Kind where
  | parameter
  | schema
  | disposed
  | request
  | value
  | division
  | place
  | name
  | magnitude
  | absence
  | decoding
  | encoding
  | depth
  | support
  | memory
  | sort
  | surroundings
  | interrupt
  | disk (cause : DiskFault)
  deriving DecidableEq, Repr

inductive Fault (α : Type) where
  | notFinite (name : String) (value : α)
  | positionLength
  | positionNotFinite (position : List α)
  | notPositive (name : String) (value : α)
  | reduction (value : α)
  | tooFewSegments (name : String) (value : Int)
  | windLength
  | windNotFinite (direction : List α) (strength : α)
  | windVertical (direction : List α)
  | ruleSymbol (got : Value α)
  | negativeIterations (n : Int)
  | expected (path : Text) (what : Expected)
  | emptyAxiom
  | iterationsBelowZero
  | ruleKey
  | unknownMode (got : Text)
  | unknownPreset (name : Text) (known : List Text)
  | invalidFile (path : Text)
  | notSkinned
  | skeletonUnskinned
  | mismatch (m : Mismatch)
  | disposed
  | nothingBuilt
  | unknownAxis (axis : Text)
  | boneOrder (index parent : Int)
  | boneCycle
  | noSuchMode
  | shape
  | negativeCount
  | seed
  | tooManyDigits
  | divisionByZero
  | outOfRange
  | noAttribute (name : Text)
  /-- An integer that no coordinate is near to. -/
  | tooLarge
  /-- An integer that does not fit where it is stored. -/
  | notStorable
  | noSkeleton
  | noBones
  | noMesh
  | notText
  | tooDeep
  /-- A name of a file that holds half of a pair where it has to be a text. -/
  | unencodable
  | zeroInName
  | tooMany
  | nothingGiven
  | unfit
  | givenTwice
  /-- What comes out of a library, as it is raised there. -/
  | foreign (kind : Fault.Kind) (message : Text)
  | disk (cause : DiskFault) (path : Text)
  deriving Repr

namespace Fault

variable {α : Type}

/-- A fault whose message can be written: it shows no whole number with too many digits. -/
def isWorded : Fault α → Bool
  | tooFewSegments _ n | negativeIterations n => Decimal.isWritable n
  | ruleSymbol got => got.isWritable
  | _ => true

def family : Fault α → Kind
  | notFinite .. | positionLength | positionNotFinite _ | notPositive .. | reduction _
  | tooFewSegments .. | windLength | windNotFinite .. | windVertical _ | ruleSymbol _
  | negativeIterations _ | expected .. | emptyAxiom | iterationsBelowZero | ruleKey
  | unknownMode _ | unknownPreset .. | invalidFile _ | notSkinned => .parameter
  | skeletonUnskinned => .request
  | mismatch _ => .schema
  | disposed | nothingBuilt => .disposed
  | unknownAxis _ | boneOrder .. | boneCycle | noSuchMode | shape | negativeCount | seed | tooManyDigits
  | zeroInName => .value
  | divisionByZero => .division
  | outOfRange => .place
  | noAttribute _ => .name
  | tooLarge | notStorable => .magnitude
  | noSkeleton | noMesh => .absence
  | notText => .decoding
  | unencodable => .encoding
  | tooDeep => .depth
  | tooMany => .memory
  | noBones | nothingGiven | unfit | givenTwice => .sort
  | foreign kind _ => kind
  | disk cause _ => .disk cause

/-- The family of a fault as callers see it. Where the message cannot be written, that is what stops the computation. -/
def kind (fault : Fault α) : Kind := if fault.isWorded then fault.family else .value

/-- The faults that a build reports, as against those that come from the numbers below it. -/
def Kind.isReported : Kind → Bool
  | parameter | schema | disposed | request => true
  | _ => false

end Fault

end Arbor
