import Arbor.Fault
import Arbor.Decimal.Shortest
import Arbor.Text.Quoted

namespace Arbor

open Text (quoted quotedList tuple)
open Decimal (shown)

def Expected.message : Expected → String
  | .number => "must be a number"
  | .integer => "must be an integer"
  | .text => "must be a string"
  | .object => "must be an object"
  | .triple => "must be a list of 3 numbers"

def Mismatch.message : Mismatch → String
  | .names chunk found expected =>
      s!"chunk {chunk} has attributes {quotedList found}, expected {quotedList expected}"
  | .normals chunk found vertices =>
      s!"chunk {chunk} has {found} normals for {vertices} vertices"
  | .length name chunk found vertices =>
      s!"attribute {quoted name} of chunk {chunk} has {found} entries for {vertices} vertices"
  | .dtype name chunk found expected =>
      s!"attribute {quoted name} of chunk {chunk} has dtype {found.name}, expected {expected.name}"
  | .itemShape name chunk found =>
      s!"attribute {quoted name} of chunk {chunk} has item shape {tuple (found.map toString)}"

def DiskFault.message : DiskFault → Text
  | .missing => "[Errno 2] No such file or directory"
  | .exists => "[Errno 17] File exists"
  | .notDirectory => "[Errno 20] Not a directory"
  | .isDirectory => "[Errno 21] Is a directory"
  | .nameTooLong => "[Errno 36] File name too long"
  | .other message => message

namespace Fault

def shownValue (v : Value Float) : String := v.shown shown quoted

def shownVector (xs : List Float) : String := tuple (xs.map shown)

/-- The message of a fault, where it can be written. -/
def wording : Fault Float → Text
  | notFinite name value => s!"{name} must be finite, got {shown value}"
  | positionLength => "position must have three components"
  | positionNotFinite position => s!"position must be finite, got {shownVector position}"
  | notPositive name value => s!"{name} must be > 0, got {shown value}"
  | reduction value => s!"radius_reduction must be in (0, 1], got {shown value}"
  | tooFewSegments name value => s!"{name} must be >= 3, got {value}"
  | windLength => "wind direction must have three components"
  | windNotFinite direction strength =>
      s!"wind direction and strength must be finite, got {shownVector direction}, {shown strength}"
  | windVertical direction =>
      s!"wind direction must have a horizontal (x or z) component, got {shownVector direction}"
  | ruleSymbol got => s!"rule symbol must be a single character, got {shownValue got}"
  | negativeIterations n => s!"iterations must be >= 0, got {n}"
  | expected path what => path ++ s!" {what.message}"
  | emptyAxiom => "axiom must be non-empty"
  | iterationsBelowZero => "iterations must be >= 0"
  | ruleKey => "rules keys must be single-character strings"
  | unknownMode got =>
      s!"tree.mode must be one of {quotedList modes}, got {quoted got}"
  | unknownPreset name known => s!"Unknown preset {quoted name}, choose from {quotedList known}"
  | invalidFile path => "Invalid JSON in " ++ path
  | notSkinned => "only skinned trees can be animated by bone sway"
  | skeletonUnskinned => "--skeleton requires --mode skinned"
  | mismatch m => m.message
  | disposed => "asset has been cleared"
  | nothingBuilt => "no tree has been built"
  | unknownAxis axis => s!"Unknown rotation axis {quoted axis}"
  | boneOrder index parent => s!"bone {index} has parent {parent} that is not before it"
  | boneCycle => "bones form a cycle"
  | noSuchMode => "no such mode"
  | shape => "sizes do not agree"
  | negativeCount => "negative count"
  | seed => "seed must be a 32-bit word"
  | tooManyDigits => "too many digits"
  | divisionByZero => "division by zero"
  | outOfRange => "no such place"
  | noAttribute name => quoted name
  | tooLarge => "integer too large"
  | notStorable => "integer does not fit its format"
  | noSkeleton => "the tree has no skeleton"
  | noBones => "the tree has no bones"
  | noMesh => "there is no mesh"
  | notText => "invalid UTF-8"
  | tooDeep => "values nested too deep"
  | unencodable => "file name cannot be encoded"
  | zeroInName => "file name holds a zero"
  | tooMany => "too many numbers to hold"
  | nothingGiven => "option needs a value"
  | unfit => "value of a sort without use here"
  | givenTwice => "given twice"
  | foreign _ message => message
  | disk (.other message) _ => message
  | disk cause path => cause.message ++ s!": {quoted path}"
where
  modes : List Text := ["static", "skinned"]

def message (fault : Fault Float) : Text := if fault.isWorded then fault.wording else "too many digits"

end Fault

end Arbor
