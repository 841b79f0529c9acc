import Arbor.Config
import Arbor.Decimal.Reading
import Arbor.Proofs.Tree.Checking

/-!
# Refused configurations

Whatever a value holds, it makes a configuration or is refused for a parameter, but for two sorts of numbers: a
coordinate that is whole and too large for one, and a count so long that it cannot be put into a message.
-/

namespace Arbor

open Outcome (StopsOnly)

variable {α : Type}

namespace Value

def at? : List String → Value α → Option (Value α)
  | [], v => some v
  | name :: path, .object fields => (field? name fields).bind (at? path)
  | _ :: _, _ => none

/-- A value is at the end of a path, or an item of the list that is there. -/
def Gives (v : Value α) (path : List String) (item : Value α) : Prop :=
  v.at? path = some item ∨ ∃ items, v.at? path = some (.list items) ∧ item ∈ items

theorem stopsOnly_entry {β : Type} {sort : Fault α → Prop} {fields : Table Text (Value α)} {name : String}
    {standard : β} {read : Value α → Except (Fault α) β}
    (each : ∀ item, field? name fields = some item → StopsOnly sort (read item)) :
    StopsOnly sort (entry fields name standard read) := by
  rw [entry]
  split
  · rename_i item found
    exact each item found
  · exact .ok standard

theorem integer_of_entry {fields : Table Text (Value α)} {name : String} {standard n : Int} {path : Text}
    (read : entry fields name standard (toInteger path) = .ok n) :
    n = standard ∨ field? name fields = some (.int n) := by
  rw [entry] at read
  split at read
  · rename_i item found
    cases item with
    | int m =>
        cases read
        exact .inr found
    | _ => cases read
  · cases read
    exact .inl rfl

theorem at?_of_entry {fields inner : Table Text (Value α)} {outer name : String} {path : Text} {item : Value α}
    (read : entry fields outer [] (toObject path) = .ok inner) (found : field? name inner = some item) :
    (Value.object fields).at? [outer, name] = some item := by
  rw [entry] at read
  split at read
  · rename_i place present
    cases place with
    | object entries =>
        cases read
        simp only [at?, present, found, Option.bind_some]
    | _ => cases read
  · cases read
    cases found

end Value

namespace TreeConfig

/-- Where a configuration holds coordinates. -/
def coordinates : List (List String) :=
  [["tree", "start_radius"], ["tree", "radius_reduction"], ["tree", "branch_length"], ["tree", "angle"],
   ["tree", "position"], ["tree", "leaf_radius"], ["wind", "direction"], ["wind", "strength"], ["wind", "noise_sample"]]

variable [Scalar α]

/-- Why a value makes no configuration: the fault, with what there is in the value for it when it is not reported. -/
inductive Refuses (v : Value α) : Fault α → Prop where
  | reported {fault : Fault α} (kind : fault.kind = .parameter) (worded : fault.isWorded = true) : Refuses v fault
  /-- A coordinate is given as a whole number that is near to none. -/
  | oversized {path : List String} {n : Int} (member : path ∈ coordinates) (given : v.Gives path (.int n))
      (large : (Scalar.ofInt? n : Option α) = none) : Refuses v .tooLarge
  /-- A count is given that no message can show. -/
  | unworded {name : String} {n : Int} (given : v.at? ["tree", name] = some (.int n))
      (long : Decimal.isWritable n = false) : Refuses v (.tooFewSegments name n)

section

variable {v item : Value α} {path : List String} {name : Text}

theorem stopsOnly_toNumber (member : path ∈ coordinates) (given : v.Gives path item) :
    StopsOnly (Refuses v) (item.toNumber name) := by
  cases item with
  | int n =>
      rw [Value.toNumber]
      split
      · exact .ok _
      · rename_i large
        exact .error (.oversized member given large)
  | real x => exact .ok x
  | _ => exact .error (.reported rfl rfl)

theorem stopsOnly_toNumber? (member : path ∈ coordinates) (given : v.at? path = some item) :
    StopsOnly (Refuses v) (item.toNumber? name) := by
  rw [Value.toNumber?.eq_def]
  split
  · exact .ok none
  · exact (stopsOnly_toNumber member (.inl given)).bind fun x _ => .ok (some x)

theorem stopsOnly_toTriple (member : path ∈ coordinates) (given : v.at? path = some item) :
    StopsOnly (Refuses v) (item.toTriple name) := by
  rw [Value.toTriple.eq_def]
  split
  · rename_i x y z
    have component {part : Value α} (inside : part ∈ [x, y, z]) (text : Text) :
        StopsOnly (Refuses v) (part.toNumber text) := stopsOnly_toNumber member (.inr ⟨_, given, inside⟩)
    refine (component (by simp) _).bind fun x' _ => ?_
    refine (component (by simp) _).bind fun y' _ => ?_
    refine (component (by simp) _).bind fun z' _ => ?_
    exact .ok [x', y', z']
  · exact .error (.reported rfl rfl)

theorem stopsOnly_toInteger : StopsOnly (Refuses v) (item.toInteger name) := by
  cases item with
  | int n => exact .ok n
  | _ => exact .error (.reported rfl rfl)

theorem stopsOnly_toText : StopsOnly (Refuses v) (item.toText name) := by
  cases item with
  | text t => exact .ok t
  | _ => exact .error (.reported rfl rfl)

theorem stopsOnly_toObject : StopsOnly (Refuses v) (item.toObject name) := by
  cases item with
  | object fields => exact .ok fields
  | _ => exact .error (.reported rfl rfl)

theorem stopsOnly_mode : StopsOnly (Refuses v) (Mode.ofEntry item) := by
  refine stopsOnly_toText.bind fun name _ => ?_
  split
  · exact .ok _
  · exact .error (.reported rfl rfl)

theorem stopsOnly_rule {rule : Text × Value α} : StopsOnly (Refuses v) (ruleOf rule) := by
  rw [ruleOf]
  split
  · exact stopsOnly_toText.bind fun t _ => .ok _
  · exact .error (.reported rfl rfl)

end

variable {v : Value α}

theorem stopsOnly_validate {p : TreeParams α}
    (given : ∀ name n, (name, n) ∈ p.counts → Decimal.isWritable n = true ∨ v.at? ["tree", name] = some (.int n)) :
    StopsOnly (Refuses v) p.validate := by
  intro fault stopped
  have blames := p.stopsOnly_checked fault (TreeParams.validate_eq_error.mp stopped)
  cases worded : fault.isWorded with
  | true =>
      refine .reported ?_ worded
      rw [blames.kind, if_pos worded]
  | false =>
      obtain ⟨name, n, rfl, member⟩ := blames.worded.resolve_left (Bool.eq_false_iff.mp worded)
      exact .unworded ((given name n member).resolve_left (Bool.eq_false_iff.mp worded)) worded

section

variable {outer name : String} {fields : Table Text (Value α)}
  (inside : ∀ name item, Value.field? name fields = some item → v.at? [outer, name] = some item)

include inside

theorem stopsOnly_numberEntry (member : [outer, name] ∈ coordinates) (standard : α) (text : Text) :
    StopsOnly (Refuses v) (Value.entry fields name standard (Value.toNumber text)) :=
  Value.stopsOnly_entry fun item found => stopsOnly_toNumber member (.inl (inside name item found))

theorem stopsOnly_tripleEntry (member : [outer, name] ∈ coordinates) (standard : List α) (text : Text) :
    StopsOnly (Refuses v) (Value.entry fields name standard (Value.toTriple text)) :=
  Value.stopsOnly_entry fun item found => stopsOnly_toTriple member (inside name item found)

end

theorem stopsOnly_tree {tree : Table Text (Value α)}
    (inside : ∀ name item, Value.field? name tree = some item → v.at? ["tree", name] = some item) :
    StopsOnly (Refuses v) (TreeParams.ofEntries tree) := by
  have count {name : String} (text : Text) :
      StopsOnly (Refuses v) (Value.entry tree name (8 : Int) (Value.toInteger text)) :=
    Value.stopsOnly_entry fun _ _ => stopsOnly_toInteger
  have counted {name : String} {text : Text} {n : Int}
      (read : Value.entry tree name (8 : Int) (Value.toInteger text) = .ok n) :
      Decimal.isWritable n = true ∨ v.at? ["tree", name] = some (.int n) := by
    rcases Value.integer_of_entry read with rfl | found
    · exact .inl (Decimal.isWritable_of_lt_ten (by decide))
    · exact .inr (inside name _ found)
  rw [TreeParams.ofEntries]
  refine (Value.stopsOnly_entry fun _ _ => stopsOnly_mode).bind fun mode _ => ?_
  refine (stopsOnly_numberEntry inside (by simp [coordinates]) _ _).bind fun startRadius _ => ?_
  refine (stopsOnly_numberEntry inside (by simp [coordinates]) _ _).bind fun radiusReduction _ => ?_
  refine (stopsOnly_numberEntry inside (by simp [coordinates]) _ _).bind fun branchLength _ => ?_
  refine (stopsOnly_numberEntry inside (by simp [coordinates]) _ _).bind fun angle _ => ?_
  refine (stopsOnly_tripleEntry inside (by simp [coordinates]) _ _).bind fun position _ => ?_
  refine (count _).bind fun radialSegments radial => ?_
  refine (stopsOnly_numberEntry inside (by simp [coordinates]) _ _).bind fun leafRadius _ => ?_
  refine (count _).bind fun leafSegments leaf => ?_
  refine (stopsOnly_validate fun name n member => ?_).bind fun _ _ => .ok _
  rw [TreeParams.counts, List.mem_cons, List.mem_singleton] at member
  rcases member with equal | equal
  · cases equal
    exact counted radial
  · cases equal
    exact counted leaf

theorem stopsOnly_windCheck (w : Wind α) : StopsOnly (Refuses v) w.validate := by
  have checked : StopsOnly (Refuses v) w.checked := by
    rw [Wind.checked]
    split
    · split
      · exact .error (.reported rfl rfl)
      · split
        · exact .error (.reported rfl rfl)
        · exact .ok _
    · exact .error (.reported rfl rfl)
  exact checked.bind fun _ _ => .ok ()

theorem stopsOnly_wind {wind : Table Text (Value α)}
    (inside : ∀ name item, Value.field? name wind = some item → v.at? ["wind", name] = some item) :
    StopsOnly (Refuses v) (Wind.ofEntries wind) := by
  rw [Wind.ofEntries]
  refine (stopsOnly_tripleEntry inside (by simp [coordinates]) _ _).bind fun direction _ => ?_
  refine (stopsOnly_numberEntry inside (by simp [coordinates]) _ _).bind fun strength _ => ?_
  have noise : StopsOnly (Refuses v)
      (Value.entry wind "noise_sample" Wind.standard.noise (Value.toNumber? "wind.noise_sample")) :=
    Value.stopsOnly_entry fun item found => stopsOnly_toNumber? (by simp [coordinates]) (inside _ item found)
  refine noise.bind fun noise _ => ?_
  exact (stopsOnly_windCheck _).bind fun _ _ => .ok _

/-- A value that makes no configuration has one of the reasons. -/
theorem stopsOnly_ofValue (v : Value α) : StopsOnly (Refuses v) (ofValue v) := by
  rw [ofValue]
  refine stopsOnly_toObject.bind fun fields shape => ?_
  have whole : v = .object fields := by
    cases v with
    | object entries =>
        cases shape
        rfl
    | _ => cases shape
  subst whole
  -- Only a tree and a wind hold coordinates, and each is an object of its own: the names lead into it.
  have object {name : String} (text : Text) :
      StopsOnly (Refuses (.object fields)) (Value.entry fields name [] (Value.toObject text)) :=
    Value.stopsOnly_entry fun _ _ => stopsOnly_toObject
  refine (Value.stopsOnly_entry fun _ _ => stopsOnly_toText).bind fun initiator _ => ?_
  split
  · exact .error (.reported rfl rfl)
  refine (Value.stopsOnly_entry fun _ _ => stopsOnly_toInteger).bind fun iterations _ => ?_
  split
  · exact .error (.reported rfl rfl)
  refine (object _).bind fun entries _ => ?_
  refine (StopsOnly.mapM fun rule _ => stopsOnly_rule).bind fun rules _ => ?_
  refine (Value.stopsOnly_entry fun _ _ => stopsOnly_toText).bind fun name _ => ?_
  refine (object _).bind fun tree given => ?_
  refine (stopsOnly_tree fun name item found => Value.at?_of_entry given found).bind fun params _ => ?_
  refine (object _).bind fun wind given => ?_
  refine (stopsOnly_wind fun name item found => Value.at?_of_entry given found).bind fun settings _ => ?_
  exact .ok _

end TreeConfig

end Arbor
