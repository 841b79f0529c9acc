import Arbor.Command.Plan
import Arbor.Proofs.Config.Acceptance

open Arbor.Outcome

namespace Arbor

namespace TreeConfig

variable {c : TreeConfig Float}

theorem usable_of_ofValue {v : Value Float} (read : ofValue v = .ok c) : c.wind.Usable :=
  (usable_of_described (ofValue_eq_ok.mp read)).2

theorem usable_of_ofBytes {path : Text} {bytes : ByteArray} (read : ofBytes path bytes = .ok c) : c.wind.Usable := by
  rw [ofBytes] at read
  split at read
  · rw [ofText] at read
    split at read
    · exact usable_of_ofValue read
    all_goals cases read
  · cases read

theorem usable_of_ofPreset {name : Text} {entries : List (Text × Value Float)} (read : ofPreset name entries = .ok c) :
    c.wind.Usable := by
  rw [ofPreset] at read
  split at read
  · cases read
  · split at read
    · exact usable_of_ofValue read
    · cases read

end TreeConfig

namespace Command

/-- An option stands at a value, its own or else the usual one. -/
abbrev Choice.Stands {β : Type} (c : Choice β) (usual x : β) : Prop := (c.get usual : Except (Fault Float) β) = .ok x

theorem Choice.stands_or {β : Type} (c : Choice β) (usual : β) : (∃ x, c.Stands usual x) ∨ c = .nothing := by
  cases c with
  | usual => exact .inl ⟨usual, rfl⟩
  | nothing => exact .inr rfl
  | value x => exact .inl ⟨x, rfl⟩

theorem Source.usable_of_load {read : Reader} {s : Source} {c : TreeConfig Float} (loaded : s.load read = .ok c) :
    c.wind.Usable := by
  unfold load at loaded
  dsimp only at loaded
  -- However the tree has been loaded, the options that come behind it leave its wind alone.
  split at loaded
  · obtain ⟨bytes, -, loaded⟩ := bind_eq_ok loaded
    obtain ⟨given, read, loaded⟩ := bind_eq_ok loaded
    obtain ⟨-, loaded⟩ := check_eq_ok_iff.mp loaded
    obtain ⟨changed, override, loaded⟩ := bind_eq_ok loaded
    obtain ⟨-, same⟩ := check_eq_ok_iff.mp override
    have usable : given.wind.Usable := TreeConfig.usable_of_ofBytes read
    cases same
    split at loaded <;> cases loaded <;> exact usable
  · obtain ⟨name, -, loaded⟩ := bind_eq_ok loaded
    obtain ⟨base, read, loaded⟩ := bind_eq_ok loaded
    have usable := TreeConfig.usable_of_ofPreset read
    split at loaded <;> cases loaded <;> exact usable

theorem Plan.of_bind {β δ : Type} (r : Except (Fault Float) β) (f : β → Plan δ) :
    (Plan.of r >>= f) =
      match r with
      | .ok x => f x
      | .error e => ⟨[], .error e⟩ := by
  cases r <;> rfl

theorem Plan.act_bind {δ : Type} (a : Action) (f : Unit → Plan δ) :
    (Plan.act a >>= f) = ⟨a :: (f ()).actions, (f ()).result⟩ := rfl

theorem Plan.bind_of_ok {β δ : Type} (actions : List Action) (x : β) (f : β → Plan δ) :
    ((⟨actions, .ok x⟩ : Plan β) >>= f) = ⟨actions ++ (f x).actions, (f x).result⟩ := rfl

theorem Task.assetOf_of_build {c : TreeConfig Float} {a : Asset Float}
    (built : Asset.buildGrammar c.tree c.grammar c.initiator c.iterations = .ok a) :
    ∃ notes : List Record, assetOf c = ⟨notes.map .note, .ok a⟩ := by
  obtain ⟨_, passed, made⟩ := bind_eq_ok built
  obtain ⟨word, grown, drawn⟩ := bind_eq_ok made
  have traced := Trace.building_snd c.tree word
  rw [drawn] at traced
  have grows : wordOf c = ⟨[.note (Trace.expanded c.initiator c.iterations word)], .ok word⟩ := by
    rw [wordOf, Plan.of_bind, grown]
    rfl
  refine ⟨Trace.expanded c.initiator c.iterations word :: (Trace.building c.tree word).1, ?_⟩
  rw [assetOf, Plan.of_bind, passed, grows, Plan.bind_of_ok, List.map_cons]
  cases records : Trace.building c.tree word with
  | mk notes result =>
      rw [records] at traced
      subst traced
      change (⟨[_] ++ (notes.map Action.note ++ []), .ok a⟩ : Plan (Asset Float)) = _
      rw [List.append_nil]
      rfl

end Command

end Arbor
