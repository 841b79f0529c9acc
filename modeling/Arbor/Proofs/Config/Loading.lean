import Arbor.Config.Load
import Arbor.Proofs.Config.Refusal
import Arbor.Proofs.Value.Reading

namespace Arbor

open Outcome (StopsOnly)

namespace Value

theorem Written.at? {α : Type} {v item : Value α} (written : Written v) {path : List String}
    (found : v.at? path = some item) : Written item := by
  induction path generalizing v with
  | nil =>
      cases found
      exact written
  | cons name path ih =>
      cases written with
      | object each =>
          obtain ⟨inner, given, deeper⟩ := Option.bind_eq_some_iff.mp found
          exact ih (each _ (Table.mem_of_get? given)) deeper
      | _ => cases found

end Value

namespace TreeConfig

/-- Why the bytes of a file make no configuration: the fault, with what there is in the file for it when it is not
reported. -/
inductive RefusesFile (bytes : ByteArray) : Fault Float → Prop where
  | reported {fault : Fault Float} (kind : fault.kind = .parameter) (worded : fault.isWorded = true) : RefusesFile bytes fault
  | notText (stray : ¬ bytes.IsValidUTF8) : RefusesFile bytes .notText
  | tooManyDigits {s : String} {digits : List Char} (text : String.fromUTF8? bytes = some s)
      (inside : digits <:+: s.toList) (each : ∀ c ∈ digits, c.isDigit = true)
      (many : Decimal.digitLimit < digits.length) : RefusesFile bytes .tooManyDigits
  | tooDeep {s : String} (text : String.fromUTF8? bytes = some s)
      (deep : Value.depthLimit < Value.nesting false 0 s.toList) : RefusesFile bytes .tooDeep
  | oversized {s : String} {v : Value Float} {path : List String} {n : Int} (text : String.fromUTF8? bytes = some s)
      (read : Value.ofText Value.depthLimit s.toList = .ok v) (member : path ∈ coordinates)
      (given : v.Gives path (.int n)) (large : (Scalar.ofInt? n : Option Float) = none) : RefusesFile bytes .tooLarge

theorem stopsOnly_ofBytes (path : Text) (bytes : ByteArray) : StopsOnly (RefusesFile bytes) (ofBytes path bytes) := by
  rw [ofBytes]
  split
  · rename_i s text
    have read := Value.ofText_accounted Value.depthLimit s.toList
    rw [ofText]
    split
    · rename_i v whole
      rw [whole] at read
      refine (stopsOnly_ofValue v).mono fun fault refuses => ?_
      cases refuses with
      | reported kind worded => exact .reported kind worded
      | oversized member given large => exact .oversized text whole member given large
      | unworded given long =>
          cases read.at? given with
          | int short => exact absurd (short.symm.trans long) Bool.noConfusion
    · exact .error (.reported rfl rfl)
    · rename_i stopped
      rw [stopped] at read
      obtain ⟨digits, inside, each, many⟩ := read
      exact .error (.tooManyDigits text inside each many)
    · rename_i stopped
      rw [stopped] at read
      exact .error (.tooDeep text (by simpa using read 0))
  · rename_i stray
    refine .error (.notText fun valid => ?_)
    rw [String.fromUTF8?, dif_pos valid] at stray
    cases stray

end TreeConfig

end Arbor
