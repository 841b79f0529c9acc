import Arbor.Proofs.Command.Filing
import Arbor.Proofs.Command.Frames

open Arbor.Outcome

namespace Arbor.Command

namespace Task

variable {a : Asset Float} {c : TreeConfig Float} {wind : Wind Float} {gusts : Option (Gusts Float)} {mesh : Mesh Float}
variable {r : Float} {rate : Choice Float}

def shooting (a : Asset Float) (wind : Wind Float) (output : Text) (rate : Choice Float) (gusts : Option (Gusts Float))
    (count : Nat) : Plan Unit := do
  Plan.act (.announce "Frames" count)
  let frames ← Plan.of (frames a wind gusts rate 0 count)
  Plan.act .endLine
  let mesh ← Plan.of a.requireMesh
  Plan.act (.makeFolder output)
  if frames.isEmpty then Plan.fail .shape
  Plan.act (.write (Path.withExtension ".npy" output) (.frames frames))
  Plan.act (.print (savedLine frames.length mesh.vertexCount output))

/-- What is planned behind a tree that has been built. -/
def filming (chance : Nat → Array UInt32) (a : Asset Float) (wind : Wind Float) (output : Text) (count : Choice Int)
    (rate : Choice Float) (noise : Bool) (seed : Choice Int) : Plan Unit := do
  let gusts ← Plan.of (gustsOf chance noise seed)
  shooting a wind output rate gusts (← Plan.of (frameCount (← Plan.of (count.get 60))))

variable {w : World} {chance : Nat → Array UInt32} {source : Source} {output : Text} {count seed : Choice Int}
variable {noise : Bool} {n : Int} {k : Nat} {fs : List (List (Vec3 Float))} {e : Fault Float}

theorem planAnimate_of_build (loaded : source.load w.read = .ok c) (counted : source.checkIterations = .ok ())
    (built : Asset.buildGrammar c.tree c.grammar c.initiator c.iterations = .ok a) (output : Text) (count : Choice Int)
    (rate : Choice Float) (noise : Bool) (seed : Choice Int) :
    ∃ notes : List Record, planAnimate w source output count rate noise seed =
      ⟨notes.map .note ++ (filming w.chance a c.wind output count rate noise seed).actions,
        (filming w.chance a c.wind output count rate noise seed).result⟩ := by
  obtain ⟨notes, noted⟩ := assetOf_of_build built
  refine ⟨notes, ?_⟩
  rw [planAnimate, Plan.of_bind, loaded]
  dsimp only
  rw [Plan.of_bind, counted]
  dsimp only
  rw [noted]
  rfl

theorem frameCount_of_lt (few : n < 2 ^ 63) : frameCount n = .ok n.toNat := if_pos few

theorem frameCount_of_le (many : 2 ^ 63 ≤ n) : frameCount n = .error .notStorable := if_neg (Int.not_lt.mpr many)

theorem filming_of_ok (blown : gustsOf chance noise seed = .ok gusts) (counted : count.Stands 60 n)
    (numbered : frameCount n = .ok k) (a : Asset Float) (wind : Wind Float) (output : Text) (rate : Choice Float) :
    filming chance a wind output count rate noise seed = shooting a wind output rate gusts k := by
  rw [filming, Plan.of_bind, blown]
  dsimp only
  rw [Plan.of_bind, counted]
  dsimp only
  rw [Plan.of_bind, numbered]

theorem shooting_of_fault (fails : frames a wind gusts rate 0 k = .error e) :
    shooting a wind output rate gusts k = ⟨[.announce "Frames" k], .error e⟩ := by
  rw [shooting, Plan.act_bind, Plan.of_bind, fails]

theorem filming_of_fault {n : Nat} (blown : gustsOf chance noise seed = .ok gusts) (counted : count.Stands 60 n)
    (positive : 0 < n) (few : n < 2 ^ 63) (fails : frameAt a wind gusts rate 0 = .error e) :
    filming chance a wind output count rate noise seed = ⟨[.announce "Frames" n], .error e⟩ := by
  rw [filming_of_ok blown counted (frameCount_of_lt (by omega)), Int.toNat_natCast,
    shooting_of_fault (frames_of_fault fails positive)]

theorem shooting_of_none (held : a.mesh? = some mesh) :
    shooting a wind output rate gusts 0 =
      ⟨[.announce "Frames" 0, .endLine, .makeFolder output], .error .shape⟩ := by
  have empty : frames a wind gusts rate 0 0 = .ok [] := rfl
  rw [shooting, Plan.act_bind, Plan.of_bind, empty]
  dsimp only
  rw [Plan.act_bind, Plan.of_bind, Asset.requireMesh_of_held held]
  rfl

theorem shooting_of_frames (held : a.mesh? = some mesh) (made : frames a wind gusts rate 0 k = .ok fs)
    (filled : fs.isEmpty = false) (output : Text) :
    shooting a wind output rate gusts k =
      ⟨[.announce "Frames" k, .endLine] ++
        [.makeFolder output, .write (Path.withExtension ".npy" output) (.frames fs),
          .print (savedLine fs.length mesh.vertexCount output)], .ok ()⟩ := by
  rw [shooting, Plan.act_bind, Plan.of_bind, made]
  dsimp only
  rw [Plan.act_bind, Plan.of_bind, Asset.requireMesh_of_held held]
  dsimp only
  rw [Plan.act_bind, filled]
  rfl

end Task

/-- Options that frames can be made with: how many, how many in a second, and in which gusts. -/
structure Fit (chance : Nat → Array UInt32) (count : Choice Int) (rate : Choice Float) (noise : Bool)
    (seed : Choice Int) (n : Nat) (r : Float) (gusts : Option (Gusts Float)) : Prop where
  counted : count.Stands 60 n
  positive : 0 < n
  few : n < 2 ^ 63
  rated : rate.Stands 30.0 r
  moving : (r == 0) = false
  blown : Task.gustsOf chance noise seed = .ok gusts

/-- Options that frames cannot be made with, and what they lead to. -/
inductive Unfit (count : Choice Int) (rate : Choice Float) (noise : Bool) (seed : Choice Int) : Fault Float → Prop where
  | seed (noisy : noise = true) (outside : seed.IsNoSeed) : Unfit count rate noise seed .seed
  | noCount (seeded : noise = true → ¬ seed.IsNoSeed) (blank : count = .nothing) :
      Unfit count rate noise seed .nothingGiven
  | tooMany {n : Int} (seeded : noise = true → ¬ seed.IsNoSeed) (counted : count.Stands 60 n) (many : 2 ^ 63 ≤ n) :
      Unfit count rate noise seed .notStorable
  | noRate {n : Nat} (seeded : noise = true → ¬ seed.IsNoSeed) (counted : count.Stands 60 n) (positive : 0 < n)
      (few : n < 2 ^ 63) (blank : rate = .nothing) : Unfit count rate noise seed .nothingGiven
  | still {n : Nat} {r : Float} (seeded : noise = true → ¬ seed.IsNoSeed) (counted : count.Stands 60 n)
      (positive : 0 < n) (few : n < 2 ^ 63) (rated : rate.Stands 30.0 r) (still : (r == 0) = true) :
      Unfit count rate noise seed .divisionByZero
  | noFrames {n : Int} (seeded : noise = true → ¬ seed.IsNoSeed) (counted : count.Stands 60 n) (absent : n ≤ 0) :
      Unfit count rate noise seed .shape

theorem fit_or_unfit (chance : Nat → Array UInt32) (count : Choice Int) (rate : Choice Float) (noise : Bool)
    (seed : Choice Int) :
    (∃ n r gusts, Fit chance count rate noise seed n r gusts) ∨ ∃ e, Unfit count rate noise seed e := by
  -- The seed first, then the count, then the rate: what is wrong with one of them comes out before the next is used.
  by_cases outside : noise = true ∧ seed.IsNoSeed
  · exact .inr ⟨_, .seed outside.1 outside.2⟩
  obtain ⟨gusts, blown⟩ := (Task.gusts_or_outside chance noise seed).resolve_right outside
  have seeded : noise = true → ¬ seed.IsNoSeed := fun noisy lacking => outside ⟨noisy, lacking⟩
  rcases count.stands_or 60 with ⟨n, counted⟩ | blank
  swap
  · exact .inr ⟨_, .noCount seeded blank⟩
  by_cases absent : n ≤ 0
  · exact .inr ⟨_, .noFrames seeded counted absent⟩
  by_cases many : 2 ^ 63 ≤ n
  · exact .inr ⟨_, .tooMany seeded counted many⟩
  obtain ⟨k, rfl⟩ : ∃ k : Nat, n = k := ⟨n.toNat, by omega⟩
  have positive : 0 < k := by omega
  have few : k < 2 ^ 63 := by omega
  rcases rate.stands_or 30.0 with ⟨r, rated⟩ | blank
  swap
  · exact .inr ⟨_, .noRate seeded counted positive few blank⟩
  cases still : r == 0 with
  | true => exact .inr ⟨_, .still seeded counted positive few rated still⟩
  | false => exact .inl ⟨k, r, gusts, counted, positive, few, rated, still, blown⟩

theorem exists_gusts (chance : Nat → Array UInt32) {noise : Bool} {seed : Choice Int}
    (seeded : noise = true → ¬ seed.IsNoSeed) : ∃ gusts, Task.gustsOf chance noise seed = .ok gusts :=
  (Task.gusts_or_outside chance noise seed).resolve_right fun outside => seeded outside.1 outside.2

theorem filming_of_unfit {count seed : Choice Int} {rate : Choice Float} {noise : Bool} {e : Fault Float}
    (unfit : Unfit count rate noise seed e) (other : e ≠ .shape) (chance : Nat → Array UInt32) (a : Asset Float)
    (wind : Wind Float) (output : Text) :
    ∃ first : List Action, (∀ action ∈ first, action.isNote = true) ∧
      Task.filming chance a wind output count rate noise seed = ⟨first, .error e⟩ := by
  have early (k : Nat) : ∀ action ∈ [Action.announce "Frames" k], action.isNote = true := by
    simp [Action.isNote]
  cases unfit with
  | seed noisy outside =>
      subst noisy
      refine ⟨[], List.forall_mem_nil _, ?_⟩
      rw [Task.filming, Plan.of_bind, Task.gustsOf_of_outside outside]
  | noCount seeded blank =>
      obtain ⟨gusts, blown⟩ := exists_gusts chance seeded
      refine ⟨[], List.forall_mem_nil _, ?_⟩
      rw [Task.filming, Plan.of_bind, blown, blank]
      rfl
  | tooMany seeded counted many =>
      obtain ⟨gusts, blown⟩ := exists_gusts chance seeded
      refine ⟨[], List.forall_mem_nil _, ?_⟩
      rw [Task.filming, Plan.of_bind, blown]
      dsimp only
      rw [Plan.of_bind, counted]
      dsimp only
      rw [Task.frameCount_of_le many]
      rfl
  | @noRate n seeded counted positive few blank =>
      obtain ⟨gusts, blown⟩ := exists_gusts chance seeded
      have fails : Task.frameAt a wind gusts rate 0 = .error .nothingGiven := by
        rw [Task.frameAt, blank]
        rfl
      exact ⟨_, early n, Task.filming_of_fault blown counted positive few fails⟩
  | @still n r seeded counted positive few rated still =>
      obtain ⟨gusts, blown⟩ := exists_gusts chance seeded
      have fails : Task.frameAt a wind gusts rate 0 = .error .divisionByZero := by
        rw [Task.frameAt, rated, ok_bind, Task.frameTime, still]
        rfl
      exact ⟨_, early n, Task.filming_of_fault blown counted positive few fails⟩
  | noFrames => exact absurd rfl other

/-- A run that is asked for frames of a tree which can be built. -/
structure Animates (i : Invocation) (d desk : Desk) (output : Text) (count : Choice Int) (rate : Choice Float)
    (noise : Bool) (seed : Choice Int) (c : TreeConfig Float) (a : Asset Float) : Prop where
  ready : d.setup i = .ok desk
  asked : ∃ source : Source, i.task = .animate source output count rate noise seed ∧
    source.load desk.read = .ok c ∧ source.checkIterations = .ok ()
  built : Asset.buildGrammar c.tree c.grammar c.initiator c.iterations = .ok a

namespace Animates

variable {i : Invocation} {d desk : Desk} {output : Text} {count seed : Choice Int} {rate : Choice Float} {noise : Bool}
variable {c : TreeConfig Float} {a : Asset Float} {e : Fault Float}

theorem usable (animates : Animates i d desk output count rate noise seed c a) : c.wind.Usable := by
  obtain ⟨source, -, loaded, -⟩ := animates.asked
  exact source.usable_of_load loaded

theorem movable (animates : Animates i d desk output count rate noise seed c a) :
    ∃ mesh, a.mesh? = some mesh ∧ a.Movable mesh := by
  obtain ⟨word, drawn⟩ := Asset.buildGrammar_eq_ok animates.built
  exact Asset.movable_of_build drawn

theorem run_of_filming (animates : Animates i d desk output count rate noise seed c a) {first second : List Action}
    {result : Except (Fault Float) Unit}
    (planned : Task.filming desk.chance a c.wind output count rate noise seed = ⟨first ++ second, result⟩)
    (notes : ∀ action ∈ first, action.isNote = true) :
    ∃ log, i.run d = ({ desk with log } : Desk).finish second result := by
  obtain ⟨source, asked, loaded, counted⟩ := animates.asked
  obtain ⟨records, plan⟩ :=
    Task.planAnimate_of_build (w := ⟨desk.read, desk.chance⟩) loaded counted animates.built output count rate noise seed
  have early : i.task.plan ⟨desk.read, desk.chance⟩ = ⟨(records.map .note ++ first) ++ second, result⟩ := by
    rw [asked, List.append_assoc]
    exact plan.trans (by rw [planned])
  refine run_of_plan animates.ready early ?_
  intro action member
  rcases List.mem_append.mp member with note | later
  · obtain ⟨record, -, rfl⟩ := List.mem_map.mp note
    rfl
  · exact notes action later

theorem run_of_fault (animates : Animates i d desk output count rate noise seed c a) {first : List Action}
    (planned : Task.filming desk.chance a c.wind output count rate noise seed = ⟨first, .error e⟩)
    (notes : ∀ action ∈ first, action.isNote = true) : ∃ last : Desk, i.run d = last.ended e := by
  rw [← List.append_nil first] at planned
  obtain ⟨log, ends⟩ := animates.run_of_filming planned notes
  exact ⟨_, ends⟩

theorem run_of_none (animates : Animates i d desk output count rate noise seed c a)
    (unfit : Unfit count rate noise seed .shape) :
    (∀ e, desk.makeFolder output = .error e → ∃ last : Desk, i.run d = last.ended e) ∧
      ∀ made, desk.makeFolder output = .ok made → ∃ last : Desk, i.run d = last.ended .shape := by
  obtain ⟨mesh, held, -⟩ := animates.movable
  cases unfit with
  | @noFrames n seeded counted absent =>
      obtain ⟨gusts, blown⟩ := exists_gusts desk.chance seeded
      have few : n < 2 ^ 63 := by omega
      have planned : Task.filming desk.chance a c.wind output count rate noise seed =
          ⟨[.announce "Frames" 0, .endLine] ++ [.makeFolder output], .error .shape⟩ := by
        rw [Task.filming_of_ok blown counted (Task.frameCount_of_lt few), Int.toNat_of_nonpos absent,
          Task.shooting_of_none held]
        rfl
      obtain ⟨log, ends⟩ := animates.run_of_filming planned (by simp [Action.isNote])
      constructor
      · intro e refused
        exact ⟨_, ends.trans (Desk.finish_of_unmade refused)⟩
      · intro made goes
        exact ⟨_, ends.trans (Desk.finish_of_made goes)⟩

/-- Options that frames cannot be made with are not reported. Where there are no frames to be made at all, that is found
out behind the folder. -/
theorem escapes_of_unfit (animates : Animates i d desk output count rate noise seed c a)
    (unfit : Unfit count rate noise seed e) (folder : e = .shape → ∃ made, desk.makeFolder output = .ok made) :
    (i.run d).ending = .escaped e := by
  -- That there are no frames to be put together is the one thing found out behind an action on the disk.
  by_cases absent : e = .shape
  · subst absent
    obtain ⟨made, folders⟩ := folder rfl
    obtain ⟨last, ends⟩ := (animates.run_of_none unfit).2 made folders
    rw [ends]
    rfl
  · obtain ⟨first, notes, planned⟩ := filming_of_unfit unfit absent desk.chance a c.wind output
    obtain ⟨last, ends⟩ := animates.run_of_fault planned notes
    rw [ends]
    cases unfit with
    | noFrames => exact absurd rfl absent
    | _ => rfl

variable {n : Nat} {r : Float} {gusts : Option (Gusts Float)}

theorem reports_of_faint (animates : Animates i d desk output count rate noise seed c a)
    (fit : Fit desk.chance count rate noise seed n r gusts) (mode : a.mode = .static) (faint : c.wind.Faint) :
    ∃ last : Desk, i.run d = last.ended (.windVertical c.wind.direction) := by
  obtain ⟨mesh, held, movable⟩ := animates.movable
  have fails := Task.frameAt_of_faint held movable animates.usable mode faint (Task.full_of_gustsOf fit.blown) fit.rated
    fit.moving 0
  refine animates.run_of_fault (Task.filming_of_fault fit.blown fit.counted fit.positive fit.few fails) ?_
  simp [Action.isNote]

theorem saves_of_fit (animates : Animates i d desk output count rate noise seed c a)
    (fit : Fit desk.chance count rate noise seed n r gusts) (blows : a.mode = .static → ¬ c.wind.Faint) :
    ∃ fs mesh, a.mesh? = some mesh ∧ List.Forall₂ (Task.Filmed a c.wind gusts r) (List.range n) fs ∧
      desk.Saves output (Path.withExtension ".npy" output) (.frames fs) (Task.savedLine n mesh.vertexCount output)
        (i.run d) := by
  obtain ⟨mesh, held, movable⟩ := animates.movable
  obtain ⟨fs, made, filmed⟩ := Task.exists_frames held movable animates.usable blows (Task.full_of_gustsOf fit.blown)
    fit.rated fit.moving n
  have length : fs.length = n := filmed.length_eq.symm.trans List.length_range
  have filled : fs.isEmpty = false := by
    rw [List.isEmpty_eq_false_iff, ← List.length_pos_iff, length]
    exact fit.positive
  have few : (n : Int) < 2 ^ 63 := by
    have few := fit.few
    omega
  have shot := Task.filming_of_ok fit.blown fit.counted (Task.frameCount_of_lt few) a c.wind output rate
  rw [Int.toNat_natCast, Task.shooting_of_frames held made filled output, length] at shot
  obtain ⟨log, ends⟩ := animates.run_of_filming shot (by simp [Action.isNote])
  rw [ends]
  exact ⟨fs, mesh, held, filmed, Desk.saves_finish log output _ _ _⟩

/-- While files are refused by the disk alone, a run with fit options complains or saves what it was asked for. Only a
name that cannot be printed behind that keeps it from ending well. -/
theorem complains_or_saves (animates : Animates i d desk output count rate noise seed c a)
    (fit : Fit desk.chance count rate noise seed n r gusts)
    (files : ∀ e, desk.Refuses output (Path.withExtension ".npy" output) e → ∃ cause, e.kind = .disk cause) :
    (i.run d).Complains ∨
      ∃ fs mesh, a.mesh? = some mesh ∧ List.Forall₂ (Task.Filmed a c.wind gusts r) (List.range n) fs ∧
        (i.run d).desk.disk.read (Path.pieces (Path.withExtension ".npy" output)) = .ok (.product (.frames fs)) ∧
        (i.run d).ending =
          if desk.takes (Task.savedLine n mesh.vertexCount output) then .exit 0 else .escaped .unencodable := by
  by_cases faint : a.mode = .static ∧ c.wind.Faint
  · obtain ⟨last, ends⟩ := animates.reports_of_faint fit faint.1 faint.2
    rw [ends]
    exact .inl (complains_of_complaint rfl last)
  · obtain ⟨fs, mesh, held, filmed, saves⟩ := animates.saves_of_fit fit fun mode blank => faint ⟨mode, blank⟩
    generalize i.run d = o at saves ⊢
    cases saves with
    | refused refuses last =>
        obtain ⟨cause, kind⟩ := files _ refuses
        exact .inl (complains_of_complaint (complaint?_of_disk kind) last)
    | saved filed printed => exact .inr ⟨fs, mesh, held, filmed, filed.kept, by rw [if_pos printed]⟩
    | unprinted filed garbled =>
        exact .inr ⟨fs, mesh, held, filmed, filed.kept, by rw [garbled, if_neg Bool.false_ne_true]⟩

end Animates

/-- A run that is asked for frames of a tree which can be built either has options that frames can be made with, or not.
With fit options, and files that are refused by the disk alone, it complains or saves exactly the frames that it was
asked for, each of them showing the tree at its moment, and then ends well where it can print the name of the file; it
complains of a wind without a direction, and of a file that cannot be written. Unfit options are not reported: a count
that is not positive or too large to be counted to, no frames in a second, a seed that does not fit into 32 bits, or
nothing where something is needed. -/
theorem requested_frames_saved {i : Invocation} {d desk : Desk} {output : Text} {count seed : Choice Int}
    {rate : Choice Float} {noise : Bool} {c : TreeConfig Float} {a : Asset Float}
    (animates : Animates i d desk output count rate noise seed c a) :
    (∀ n r gusts, Fit desk.chance count rate noise seed n r gusts →
      ((∀ e, desk.Refuses output (Path.withExtension ".npy" output) e → ∃ cause, e.kind = .disk cause) →
        (i.run d).Complains ∨
          ∃ fs mesh, a.mesh? = some mesh ∧ List.Forall₂ (Task.Filmed a c.wind gusts r) (List.range n) fs ∧
            (i.run d).desk.disk.read (Path.pieces (Path.withExtension ".npy" output)) = .ok (.product (.frames fs)) ∧
            (i.run d).ending =
              if desk.takes (Task.savedLine n mesh.vertexCount output) then .exit 0 else .escaped .unencodable) ∧
      ((a.mode = .static → ¬ c.wind.Faint) →
        ∃ fs mesh, a.mesh? = some mesh ∧ List.Forall₂ (Task.Filmed a c.wind gusts r) (List.range n) fs ∧
          desk.Saves output (Path.withExtension ".npy" output) (.frames fs)
            (Task.savedLine n mesh.vertexCount output) (i.run d)) ∧
      (a.mode = .static → c.wind.Faint →
        ∃ last : Desk, i.run d = last.ended (.windVertical c.wind.direction))) ∧
    (∀ e, Unfit count rate noise seed e →
      ((e = .shape → ∃ made, desk.makeFolder output = .ok made) → (i.run d).ending = .escaped e) ∧
      ∀ refused, e = .shape → desk.makeFolder output = .error refused →
        ∃ last : Desk, i.run d = last.ended refused) ∧
    ((∃ n r gusts, Fit desk.chance count rate noise seed n r gusts) ∨ ∃ e, Unfit count rate noise seed e) := by
  refine ⟨fun n r gusts fit => ?_, fun e unfit => ⟨animates.escapes_of_unfit unfit, ?_⟩,
    fit_or_unfit desk.chance count rate noise seed⟩
  · exact ⟨animates.complains_or_saves fit, animates.saves_of_fit fit, animates.reports_of_faint fit⟩
  · rintro refused rfl
    exact (animates.run_of_none unfit).1 refused

def stump : TreeConfig Float :=
  ⟨"Default", "fffffA", 0, [('A', "^fB+^^B+vvB<<<<B"), ('B', "[^^ff--A]")],
    { TreeParams.standard with mode := .skinned, angle := 10 }, Wind.standard⟩

def swinging (count seed : Int) : Invocation :=
  ⟨false, none,
    .animate ⟨.usual, none, .value 0, { mode := some .skinned }, []⟩ "sway" (.value count) (.value 4.0) true
      (.value seed)⟩

set_option maxRecDepth 10000 in
theorem load_stump (read : Reader) :
    Source.load read ⟨.usual, none, .value 0, { mode := some .skinned }, []⟩ = .ok stump := by rfl

def Desk.opened : Desk := { Desk.bare with log := Log.unset.setup 30 none }

theorem exists_swinging : ∃ a, ∀ count seed, Animates (swinging count seed) .bare .opened "sway" (.value count)
    (.value 4.0) true (.value seed) stump a := by
  have usable : stump.tree.Usable := TreeParams.usable_iff.mp (by rfl)
  have room : stump.tree.vertexTotal stump.initiator ≤ 2 ^ 32 := by decide
  obtain ⟨a, built⟩ := Asset.exists_build positiveApart_float usable room
  refine ⟨a, fun count seed => ⟨rfl, ⟨_, rfl, load_stump _, rfl⟩, ?_⟩⟩
  rw [Asset.buildGrammar, TreeParams.usable_iff.mpr usable]
  exact built

theorem requested_frames_saved_stump :
    (∃ fs, fs.length = 2 ∧ ((swinging 2 7).run .bare).ending = .exit 0 ∧
      ((swinging 2 7).run .bare).desk.disk.read (Path.pieces "sway.npy") = .ok (.product (.frames fs))) ∧
    ((swinging 0 7).run .bare).ending = .escaped .shape ∧ ((swinging 2 (-1)).run .bare).ending = .escaped .seed := by
  obtain ⟨a, animates⟩ := exists_swinging
  have blows : a.mode = .static → ¬ stump.wind.Faint := by
    intro mode
    obtain ⟨word, drawn⟩ := Asset.buildGrammar_eq_ok (animates 2 7).built
    rw [Asset.mode_of_build drawn] at mode
    cases mode
  have folder : ∃ made, Desk.opened.makeFolder "sway" = .ok made := ⟨_, rfl⟩
  have seeded : true = true → ¬ (Choice.value 7).IsNoSeed := fun _ outside => by
    rcases outside with low | high <;> omega
  obtain ⟨gusts, blown⟩ := exists_gusts Desk.opened.chance seeded
  have fit : Fit Desk.opened.chance (.value 2) (.value 4.0) true (.value 7) 2 4.0 gusts :=
    ⟨rfl, by decide, by decide, rfl, by rfl, blown⟩
  refine ⟨?_, ?_, ?_⟩
  · obtain ⟨fs, mesh, held, filmed, saves⟩ := ((requested_frames_saved (animates 2 7)).1 _ _ _ fit).2.1 blows
    refine ⟨fs, filmed.length_eq.symm, ?_⟩
    generalize (swinging 2 7).run .bare = o at saves ⊢
    cases saves with
    | refused refuses last =>
        cases refuses with
        | unmade refused => cases refused
        | unwritten folders refused =>
            cases folders
            cases refused
    | saved filed printed => exact ⟨rfl, filed.kept⟩
    | unprinted filed garbled => cases garbled
  · exact ((requested_frames_saved (animates 0 7)).2.1 _ (.noFrames seeded rfl (by decide))).1 fun _ => folder
  · exact ((requested_frames_saved (animates 2 (-1))).2.1 _ (.seed rfl (.inl (by decide)))).1 fun _ => folder

/-- Not every run that is asked for frames reports why it does not make them. -/
theorem seed_below_zero_escapes :
    ¬ ∀ (i : Invocation) (d desk : Desk) (output : Text) (count seed : Choice Int) (rate : Choice Float) (noise : Bool)
      (c : TreeConfig Float) (a : Asset Float), Animates i d desk output count rate noise seed c a →
        (i.run d).ending = .exit 2 ∨ (i.run d).ending = .exit 0 := by
  intro every
  obtain ⟨a, animates⟩ := exists_swinging
  have escaped := (animates 2 (-1)).escapes_of_unfit (.seed rfl (.inl (by decide))) fun shape => (nomatch shape)
  rcases every _ _ _ _ _ _ _ _ _ _ (animates 2 (-1)) with two | zero
  · rw [escaped] at two
    cases two
  · rw [escaped] at zero
    cases zero

end Arbor.Command
