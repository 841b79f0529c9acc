import Arbor.Config
import Arbor.Value.Reader

namespace Arbor.TreeConfig

def ofText (path : Text) (cs : List Char) : Except (Fault Float) (TreeConfig Float) :=
  match Value.ofText Value.depthLimit cs with
  | .ok v => ofValue v
  | .error .malformed => .error (.invalidFile path)
  | .error .tooManyDigits => .error .tooManyDigits
  | .error .tooDeep => .error .tooDeep

def ofBytes (path : Text) (bytes : ByteArray) : Except (Fault Float) (TreeConfig Float) :=
  match String.fromUTF8? bytes with
  | some s => ofText path s.toList
  | none => .error .notText

end Arbor.TreeConfig
