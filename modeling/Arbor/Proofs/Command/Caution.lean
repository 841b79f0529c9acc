import Arbor.Proofs.Command.Filing
import Arbor.Proofs.Command.Planning
import Arbor.Proofs.Export.Cells

/-!
# Caution

Whatever can be wrong with a tree or with the options for it is found out before a task comes to the disk. Behind the
first folder that it makes, the first file that it writes and the first request to a library, it is only stopped by what
these are to blame for.
-/

open Arbor.Outcome

namespace Arbor.Command

abbrev Unreported {β : Type} (x : Except (Fault Float) β) : Prop := StopsOnly (fun e => e.kind.isReported = false) x

theorem unreported_checkName (file : Text) : Unreported (Path.checkName file) := by
  rw [Path.checkName]
  split
  · exact .error rfl
  · split
    · exact .error rfl
    · exact .ok ()

theorem Disk.unreported_makeFolders {γ : Type} (d : Disk γ) (root : Text) (here : Path) (names : List Text) :
    Unreported (d.makeFolders root here names) := by
  induction names generalizing d here with
  | nil => exact .ok d
  | cons name rest ih =>
      unfold makeFolders
      refine (unreported_checkName name).bind fun _ _ => ?_
      split
      · exact ih d _
      · split
        · exact .error rfl
        · rename_i next _
          exact (unreported_checkName next).bind fun _ _ => .error rfl
      · exact .guard rfl fun _ => ih _ _

namespace Desk

theorem unreported_onFile {β : Type} (file : Text) (request : Except DiskFault β) : Unreported (onFile file request) := by
  refine (unreported_checkName file).bind fun _ _ => .guard rfl fun _ => ?_
  cases request with
  | ok x => exact .ok x
  | error cause => exact .error rfl

theorem unreported_write (d : Desk) (file : Text) (content : Content) : Unreported (d.write file content) :=
  (unreported_onFile file _).bind fun _ _ => .ok _

theorem unreported_makeFolder (d : Desk) (file : Text) : Unreported (d.makeFolder file) := by
  exact .guard rfl fun _ => (d.disk.unreported_makeFolders _ _ _).bind fun _ _ => .ok _

theorem unreported_print (d : Desk) (line : Text) : Unreported (d.print line) := by
  rw [print]
  split
  · exact .ok _
  · exact .error rfl

theorem unreported_of_after {d y : Desk} {outcome : Except (Fault Float) Desk} {e : Fault Float}
    (sure : Unreported outcome) (fails : d.after outcome = (some e, y)) : e.kind.isReported = false := by
  cases outcome with
  | ok next => cases fails
  | error fault =>
      cases fails
      exact sure _ rfl

end Desk

/-- A library that raises no fault of the build. -/
def Library.IsBlameless (library : Library) : Prop :=
  ∀ r disk after e, library r disk = (after, some e) → e.kind.isReported = false

namespace Library

theorem unreported_surfaceFile (s : Surface Float) (file : Text) : Unreported (surfaceFile s file) := by
  refine .guard rfl fun _ => .guard rfl fun _ => ?_
  refine (unreported_checkName file).bind fun _ _ => ?_
  exact .guard rfl fun _ => .guard rfl fun _ => .guard rfl fun _ => .ok _

theorem unreported_settled (l : Limits Float) : Unreported (settled l) := by
  rw [settled]
  split
  · exact .error rfl
  · split <;> exact .ok _

theorem unreported_drawn (p : Preview Float) : Unreported (drawn p) := by
  have limits : Unreported (p.limits.mapM fun l => do
      return (⟨← settled l.x, ← settled l.y, ← settled l.z⟩ : Vec3 (Limits Float))) := by
    cases p.limits with
    | none => exact .ok none
    | some l =>
        refine StopsOnly.bind ?_ fun _ _ => .ok _
        refine (unreported_settled l.x).bind fun _ _ => (unreported_settled l.y).bind fun _ _ => ?_
        exact (unreported_settled l.z).bind fun _ _ => .ok _
  refine limits.bind fun _ _ => ?_
  split
  · exact .ok _
  · exact .error rfl

theorem unreported_pictureFile (p : Preview Float) (file : Text) : Unreported (pictureFile p file) := by
  refine .guard rfl fun _ => (unreported_drawn p).bind fun drawing _ => ?_
  exact .guard rfl fun _ => .guard rfl fun _ => .ok _

theorem unreported_written (disk : Disk Content) (file : Text) : Unreported (written disk file) :=
  Desk.unreported_onFile file _

/-- The libraries that know the formats by name blame no tree. -/
theorem blameless_standard : standard.IsBlameless := by
  have unreported (disk : Disk Content) (r : Request) : Unreported (answered disk r) := by
    cases r with
    | saveSurface s file =>
        refine (unreported_surfaceFile s file).bind fun name _ => ?_
        split
        · exact .error rfl
        · exact .ok disk
        · exact .ok _
    | draw p => exact (unreported_drawn p).bind fun _ _ => .ok disk
    | savePicture p file => exact (unreported_pictureFile p file).bind fun name _ => unreported_written disk name
    | _ => exact .ok disk
  intro r disk after e fails
  rw [standard] at fails
  cases outcome : answered disk r with
  | ok next =>
      rw [outcome] at fails
      cases fails
  | error fault =>
      rw [outcome] at fails
      cases fails
      exact unreported disk r _ outcome

end Library

theorem Desk.unreported_of_perform {d y : Desk} {a : Action} {e : Fault Float} (blameless : d.library.IsBlameless)
    (fails : d.perform a = (some e, y)) : e.kind.isReported = false := by
  cases a with
  | note | announce | endLine => cases fails
  | print line => exact unreported_of_after (d.unreported_print line) fails
  | makeFolder file => exact unreported_of_after (d.unreported_makeFolder file) fails
  | write file product => exact unreported_of_after (d.unreported_write file _) fails
  | request r =>
      rw [perform, ask, Prod.mk.injEq] at fails
      exact blameless r d.disk _ e (Prod.ext rfl fails.1)

namespace Plan

variable {β δ : Type}

def IsQuiet (p : Plan β) : Prop := ∀ a ∈ p.actions, a.isQuiet = true

/-- A plan that stays away from the disk where it ends in a fault of the build. -/
def IsCautious (p : Plan β) : Prop := ∀ e, p.result = .error e → e.kind.isReported = true → p.IsQuiet

theorem fault?_eq_some_iff {p : Plan β} {e : Fault Float} : p.fault? = some e ↔ p.result = .error e := by
  rw [fault?]
  cases p.result with
  | ok x => simp
  | error other => simp

theorem quiet_of (r : Except (Fault Float) β) : (of r).IsQuiet := List.forall_mem_nil _

theorem quiet_act {a : Action} (quiet : a.isQuiet = true) : (act a).IsQuiet := List.forall_mem_singleton.mpr quiet

theorem quiet_notes (records : List Record) : (acts (records.map .note)).IsQuiet := by
  intro a member
  obtain ⟨record, -, rfl⟩ := List.mem_map.mp member
  rfl

theorem unreported_bind {p : Plan β} {f : β → Plan δ} (first : Unreported p.result)
    (later : ∀ x, p.result = .ok x → Unreported (f x).result) : Unreported (p >>= f).result := by
  change Unreported (Plan.bind p f).result
  rw [Plan.bind]
  cases result : p.result with
  | ok x => exact later x result
  | error e => exact .error (first e result)

variable {p : Plan β} {f : β → Plan δ}

theorem IsQuiet.bind (first : p.IsQuiet) (later : ∀ x, p.result = .ok x → (f x).IsQuiet) : (p >>= f).IsQuiet := by
  change (Plan.bind p f).IsQuiet
  rw [Plan.bind]
  cases result : p.result with
  | ok x => exact List.forall_mem_append.mpr ⟨first, later x result⟩
  | error e => exact first

theorem IsQuiet.cautious (quiet : p.IsQuiet) : p.IsCautious := fun _ _ _ => quiet

theorem cautious_of_unreported (sure : Unreported p.result) : p.IsCautious := by
  intro e stopped reported
  rw [sure e stopped] at reported
  cases reported

theorem IsQuiet.bind_cautious (first : p.IsQuiet) (later : ∀ x, p.result = .ok x → (f x).IsCautious) :
    (p >>= f).IsCautious := by
  change (Plan.bind p f).IsCautious
  rw [Plan.bind]
  cases result : p.result with
  | ok x => exact fun e stopped reported => List.forall_mem_append.mpr ⟨first, later x result e stopped reported⟩
  | error e => exact IsQuiet.cautious first

theorem unreported_ite {condition : Prop} [Decidable condition] {p : Plan Unit} {next : Unit → Plan β}
    (sure : Unreported p.result) (goes : Unreported (next ()).result) :
    Unreported (if condition then p >>= next else next ()).result := by
  split
  · exact unreported_bind sure fun _ _ => goes
  · exact goes

theorem cautious_guard {condition : Prop} [Decidable condition] {e : Fault Float} {next : Unit → Plan β}
    (goes : (next ()).IsCautious) : (if condition then fail e >>= next else next ()).IsCautious := by
  split
  · exact (quiet_of _).bind_cautious fun _ passed => nomatch passed
  · exact goes

end Plan

namespace Task

open Plan (quiet_of quiet_act quiet_notes unreported_bind unreported_ite cautious_guard cautious_of_unreported)

theorem quiet_wordOf (c : TreeConfig Float) : (wordOf c).IsQuiet := by
  refine (quiet_of _).bind fun word _ => ?_
  exact (quiet_act rfl).bind fun _ _ => quiet_of (.ok word)

theorem quiet_assetOf (c : TreeConfig Float) : (assetOf c).IsQuiet := by
  refine (quiet_of _).bind fun _ _ => ?_
  refine (quiet_wordOf c).bind fun word _ => ?_
  exact (quiet_notes _).bind fun _ _ => quiet_of _

theorem unreported_saveMesh (m : Mesh Float) (file : Text) : Unreported (saveMesh m file).result := .ok ()

theorem unreported_savePicture (p : Preview Float) (file : Text) : Unreported (savePicture p file).result := .ok ()

theorem unreported_ofWholes (ns : List Int) :
    Unreported (Column.ofWholes .signed ns : Except (Fault Float) (Column Float)) := by
  rw [Column.ofWholes_signed]
  split
  · exact .ok _
  · exact .error rfl

theorem unreported_saveSkeleton (s : Skeleton Float) (file : Text) : Unreported (saveSkeleton s file).result := by
  refine unreported_bind (.ok ()) fun _ _ => ?_
  refine unreported_bind ((unreported_ofWholes _).bind fun _ _ => .ok _) fun archive _ => ?_
  exact .ok ()

theorem unreported_viewTree (m : Mesh Float) (bones : Option (Skeleton Float)) :
    Unreported (viewTree m bones).result := by
  refine unreported_bind (.ok ()) fun _ _ => unreported_ite (.ok ()) ?_
  cases bones with
  | none => exact .ok ()
  | some s =>
      have lines : Unreported (Plan.of s.lines).result :=
        (unreported_ofWholes _).bind fun _ _ => (unreported_ofWholes _).bind fun _ _ => .ok _
      dsimp only
      split
      · refine unreported_bind lines fun l _ => ?_
        exact .ok ()
      · exact .ok ()

theorem unreported_requireSkeleton (a : Asset Float) : Unreported a.requireSkeleton := by
  rw [Asset.requireSkeleton]
  split
  · exact .ok _
  · exact .error rfl

variable (w : World) (source : Source) (output : Text)

theorem quiet_planGenerate (lengthOnly : Bool) : (planGenerate w source lengthOnly).IsQuiet := by
  refine (quiet_of _).bind fun c _ => (quiet_of _).bind fun _ _ => ?_
  exact (quiet_wordOf c).bind fun _ _ => quiet_act rfl

theorem cautious_planBuild (skeleton : Option Text) : (planBuild w source output skeleton).IsCautious := by
  refine (quiet_of _).bind_cautious fun c _ => cautious_guard ?_
  refine (quiet_of _).bind_cautious fun _ _ => (quiet_assetOf c).bind_cautious fun a _ => ?_
  refine (quiet_of _).bind_cautious fun mesh _ => cautious_of_unreported ?_
  -- From here on files are written.
  refine unreported_bind (unreported_saveMesh mesh output) fun _ _ => ?_
  cases skeleton with
  | none => exact .ok ()
  | some file =>
      refine unreported_bind (unreported_requireSkeleton a) fun bones _ => ?_
      exact unreported_bind (unreported_saveSkeleton bones file) fun _ _ => .ok ()

theorem cautious_planRender (elevation azimuth : Choice Float) (displays interactive : Bool) :
    (planRender w source output elevation azimuth displays interactive).IsCautious := by
  refine (quiet_of _).bind_cautious fun c _ => (quiet_of _).bind_cautious fun _ _ => ?_
  refine (quiet_assetOf c).bind_cautious fun a _ => (quiet_of _).bind_cautious fun mesh _ => cautious_of_unreported ?_
  -- From here on pictures are drawn.
  refine unreported_ite (.ok ()) (unreported_bind (.ok ()) fun _ _ => ?_)
  refine unreported_ite (unreported_savePicture _ output) (unreported_ite (.ok ()) ?_)
  refine unreported_bind (.ok ()) fun _ _ => ?_
  split
  · exact unreported_viewTree mesh _
  · exact .ok ()

theorem cautious_planAnimate (count : Choice Int) (rate : Choice Float) (noise : Bool) (seed : Choice Int) :
    (planAnimate w source output count rate noise seed).IsCautious := by
  refine (quiet_of _).bind_cautious fun c _ => (quiet_of _).bind_cautious fun _ _ => ?_
  refine (quiet_assetOf c).bind_cautious fun a _ => (quiet_of _).bind_cautious fun gusts _ => ?_
  refine (quiet_of _).bind_cautious fun _ _ => (quiet_of _).bind_cautious fun count _ => ?_
  refine (quiet_act rfl).bind_cautious fun _ _ => (quiet_of _).bind_cautious fun frames _ => ?_
  refine (quiet_act rfl).bind_cautious fun _ _ => (quiet_of _).bind_cautious fun mesh _ => cautious_of_unreported ?_
  exact unreported_bind (.ok ()) fun _ _ => unreported_ite (.error rfl) (.ok ())

theorem cautious_plan {task : Task} (tree : ∀ folder format, task ≠ .presets folder format) :
    (task.plan w).IsCautious := by
  cases task with
  | generate source lengthOnly => exact (quiet_planGenerate w source lengthOnly).cautious
  | build source output skeleton => exact cautious_planBuild w source output skeleton
  | render source output elevation azimuth displays interactive =>
      exact cautious_planRender w source output elevation azimuth displays interactive
  | animate source output count rate noise seed => exact cautious_planAnimate w source output count rate noise seed
  | presets folder format => exact absurd rfl (tree folder format)

end Task

namespace System

variable {σ : Type} {s : System (StateM σ)} {sort : σ → Prop} {x z : σ} {e : Fault Float}

/-- A system in which, in states of some sort, no action raises a fault of the build or leads to states of another. -/
structure IsBlameless (s : System (StateM σ)) (sort : σ → Prop) : Prop where
  keeps : ∀ a x fault y, sort x → s.perform a x = (fault, y) → sort y
  unreported : ∀ a x e y, sort x → s.perform a x = (some e, y) → e.kind.isReported = false

theorem IsBlameless.keeps_of_carries {a : Action} {fault : Option (Fault Float)} (blameless : s.IsBlameless sort)
    (sorted : sort x) (carried : s.Carries a x fault z) : sort z := by
  cases carried with
  | done goes => exact blameless.keeps _ _ _ _ sorted goes
  | raised fails _ => exact blameless.keeps _ _ _ _ sorted fails
  | excused fails _ noted => exact blameless.keeps _ _ _ _ (blameless.keeps _ _ _ _ sorted fails) noted

theorem IsBlameless.keeps_of_performs {actions : List Action} (blameless : s.IsBlameless sort) (sorted : sort x)
    (done : s.Performs x actions z) : sort z := by
  induction done with
  | nothing => exact sorted
  | next first _ ih => exact ih (blameless.keeps_of_carries sorted first)

theorem IsBlameless.unreported_of_carries {a : Action} (blameless : s.IsBlameless sort) (sorted : sort x)
    (fails : s.Carries a x (some e) z) : e.kind.isReported = false := by
  cases fails with
  | raised fails _ => exact blameless.unreported _ _ _ _ sorted fails
  | excused fails _ noted => exact blameless.unreported _ _ _ _ (blameless.keeps _ _ _ _ sorted fails) noted

/-- What a task about one tree raises because of the tree, it raises before it comes to the disk. -/
theorem quiet_of_raises (blameless : s.IsBlameless sort) {task : Task}
    (tree : ∀ folder format, task ≠ .presets folder format) {w : World} (sorted : sort x)
    (raised : s.Raises (task.plan w) x z e) (reported : e.kind.isReported = true) :
    ∃ actions, s.Performs x actions z ∧ ∀ a ∈ actions, a.isQuiet = true := by
  cases raised with
  | action _ done fails =>
      rw [blameless.unreported_of_carries (blameless.keeps_of_performs sorted done) fails] at reported
      cases reported
  | task done stops => exact ⟨_, done, Task.cautious_plan w tree e (Plan.fault?_eq_some_iff.mp stops) reported⟩

end System

/-- Nothing but the log of an invocation has been created or changed on a disk. -/
def Invocation.Spares (i : Invocation) (before after : Disk Content) : Prop :=
  ∀ path, (∀ file, i.logFile = some file → before.locate [] (Path.pieces (Path.straight file)) ≠ .ok path) →
    after.node? path = before.node? path

namespace Desk

variable {d desk z : Desk} {i : Invocation} {e : Fault Float}

theorem blameless_system : system.IsBlameless fun d => d.library.IsBlameless where
  keeps a d fault next blameless performed := by
    have same : next.toSite = d.toSite := by
      rw [← site_perform d a]
      exact congrArg (fun answer : _ × Desk => answer.2.toSite) performed.symm
    rw [same]
    exact blameless
  unreported a d e next blameless fails := unreported_of_perform blameless fails

theorem disk_of_quiet {a : Action} (quiet : a.isQuiet = true) (d : Desk) : (d.perform a).2.disk = d.disk := by
  cases a with
  | note | announce => rfl
  | endLine => exact disk_endLine
  | print line =>
      rw [perform, print]
      split <;> rfl
  | makeFolder | write | request => cases quiet

theorem disk_of_performs {actions : List Action} (done : system.Performs d actions z)
    (quiet : ∀ a ∈ actions, a.isQuiet = true) : z.disk = d.disk := by
  induction done with
  | nothing => rfl
  | @next x y _ a rest first _ ih =>
      have calm := quiet a List.mem_cons_self
      refine (ih fun b member => quiet b (List.mem_cons_of_mem _ member)).trans ?_
      cases first with
      | done goes =>
          rw [← disk_of_quiet calm x]
          exact congrArg (fun answer : _ × Desk => answer.2.disk) goes.symm
      | excused fails excused noted =>
          -- Only requests are excused, and they are not quiet.
          unfold Action.excuse? at excused
          split at excused
          · cases calm
          · cases excused

theorem node?_of_write {file : Text} {content : Content} {after : Desk} (written : d.write file content = .ok after) :
    ∃ path, d.disk.locate [] (Path.pieces file) = .ok path ∧
      ∀ other, path ≠ other → after.disk.node? other = d.disk.node? other := by
  obtain ⟨disk, filed, same⟩ := bind_eq_ok written
  cases same
  obtain ⟨path, found, put⟩ := bind_eq_ok (onFile_eq_ok filed)
  obtain ⟨-, put⟩ := guard_eq_ok_iff.mp put
  cases put
  exact ⟨path, found, fun other apart => Disk.node?_put_of_ne apart _⟩

theorem spares_of_setup (ready : d.setup i = .ok desk) : i.Spares d.disk desk.disk := by
  intro path apart
  rw [setup] at ready
  cases log : i.logFile with
  | none =>
      rw [log] at ready
      cases ready
      rfl
  | some file =>
      rw [log] at ready
      obtain ⟨next, opened, same⟩ := bind_eq_ok ready
      cases same
      obtain ⟨place, found, others⟩ := node?_of_write opened
      refine others path ?_
      rintro rfl
      exact apart file log found

theorem disk_of_reported (ready : d.setup i = .ok desk)
    (raised : system.Raises (i.task.plan ⟨desk.read, desk.chance⟩) desk z e) (reported : e.kind.isReported = true) :
    (i.run d).desk.disk = z.disk := by
  have set : system.setup i d = (none, desk) := by
    change d.after (d.setup i) = _
    rw [ready, after]
  rw [Invocation.desk_run, System.run_of_raises set rfl raised, System.conclude_eq, complaint?_of_build reported]
  exact disk_endLine

end Desk

/-- A task about one tree that raises a fault of the build has only taken notes, written to the console and printed
before, whatever files and libraries do, as long as the fault is not theirs. So a command that is refused because of its
tree leaves the disk as it was, but for its log. -/
theorem rejected_writes_nothing :
    (∀ (σ : Type) (s : System (StateM σ)) (sort : σ → Prop), s.IsBlameless sort →
      ∀ (task : Task) (w : World) (x z : σ) (e : Fault Float), (∀ folder format, task ≠ .presets folder format) →
        sort x → s.Raises (task.plan w) x z e → e.kind.isReported = true →
          ∃ actions, s.Performs x actions z ∧ ∀ a ∈ actions, a.isQuiet = true) ∧
    ∀ (i : Invocation) (d desk z : Desk) (e : Fault Float), (∀ folder format, i.task ≠ .presets folder format) →
      d.library.IsBlameless → d.setup i = .ok desk →
        Desk.system.Raises (i.task.plan ⟨desk.read, desk.chance⟩) desk z e → e.kind.isReported = true →
          z.disk = desk.disk ∧ i.Spares d.disk z.disk ∧ i.Spares d.disk (i.run d).desk.disk := by
  refine ⟨fun σ s sort blameless task w x z e tree => System.quiet_of_raises blameless tree, ?_⟩
  intro i d desk z e tree blameless ready raised reported
  have sorted : desk.library.IsBlameless := by
    rw [Desk.site_of_setup ready]
    exact blameless
  obtain ⟨actions, done, quiet⟩ := System.quiet_of_raises Desk.blameless_system tree sorted raised reported
  have same := Desk.disk_of_performs done quiet
  have spared : i.Spares d.disk z.disk := same ▸ Desk.spares_of_setup ready
  exact ⟨same, spared, (Desk.disk_of_reported ready raised reported).symm ▸ spared⟩

def boning : Invocation :=
  ⟨false, some "l", .build ⟨.value "dichotomous", none, .value 1, {}, []⟩ "m.vtk" (some "b.npz")⟩

set_option maxRecDepth 10000 in
theorem raises_boning (w : World) (desk : Desk) : Desk.system.Raises (boning.task.plan w) desk desk .skeletonUnskinned :=
  .task (.nothing _) rfl

theorem rejected_writes_nothing_unskinned :
    ∃ desk, Desk.bare.setup boning = .ok desk ∧
      (∃ actions, Desk.system.Performs desk actions desk ∧ ∀ a ∈ actions, a.isQuiet = true) ∧
      (boning.run .bare).desk.disk.node? ["m.vtk"] = none ∧ (boning.run .bare).desk.disk.node? ["b.npz"] = none := by
  have tree (folder : Option Text) (format : Choice Text) : boning.task ≠ .presets folder format :=
    fun same => nomatch same
  obtain ⟨systems, desks⟩ := rejected_writes_nothing
  refine ⟨_, rfl, ?_, ?_⟩
  · exact systems Desk Desk.system _ Desk.blameless_system boning.task ⟨Desk.bare.read, Desk.bare.chance⟩ _ _ _ tree
      Library.blameless_standard (raises_boning _ _) rfl
  · obtain ⟨-, -, spared⟩ := desks boning .bare _ _ _ tree Library.blameless_standard rfl (raises_boning _ _) rfl
    have free (file : Path) (apart : (["l"] : Path) ≠ file) (absent : Desk.bare.disk.node? file = none) :
        (boning.run .bare).desk.disk.node? file = none := by
      refine (spared file ?_).trans absent
      rintro log ⟨⟩ found
      exact apart (Except.ok.inj found)
    exact ⟨free ["m.vtk"] (by decide) rfl, free ["b.npz"] (by decide) rfl⟩

end Arbor.Command
