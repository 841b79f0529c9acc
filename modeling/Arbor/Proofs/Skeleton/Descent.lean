import Mathlib.Data.List.Nodup
import Mathlib.Data.Nat.Find
import Arbor.Proofs.Skeleton.Lineage

/-!
# Descent

What is found below a bone. The lists of children say the same as the parents as soon as each of them holds the bones
that name its bone, and then the search through the children finds the bones whose line passes through the bone, each
of them once.
-/

namespace Arbor

def offspring {α : Type} (bones : Array (Bone α)) (p : Nat) : List Nat :=
  (List.range bones.size).filter fun i => bones[i]?.map Bone.parent = some (p : Int)

/-- The children of every bone are the bones that name it as their parent. -/
def Kin {α : Type} (bones : Array (Bone α)) : Prop :=
  ∀ (p : Nat) (b : Bone α), bones[p]? = some b → b.children = (offspring bones p).map Nat.cast

namespace Skeleton

variable {α : Type} {s : Skeleton α}

/-- The search of the bones below some pending ones, which comes to its end: the bone that was put off last is noted,
and its children are put off behind the others. -/
inductive Searched (s : Skeleton α) : List Int → List Int → Prop
  | done : Searched s [] []
  | next {pending noted : List Int} {c : Int} {b : Bone α} : s.bone c = .ok b →
      Searched s (pending ++ b.children) noted → Searched s (pending ++ [c]) (c :: noted)

/-- A search that has put off some bones last notes what is found from them before it goes on. -/
def Finds (s : Skeleton α) (children found : List Int) : Prop :=
  ∃ noted : List Int, noted.Perm found ∧
    ∀ pending later, s.Searched pending later → s.Searched (pending ++ children) (noted ++ later)

theorem finds_nil (s : Skeleton α) : s.Finds [] [] :=
  ⟨[], .nil, fun pending later ends => by rwa [List.append_nil]⟩

theorem finds_cons {c : Int} {b : Bone α} {found rest others : List Int} (present : s.bone c = .ok b)
    (own : s.Finds b.children found) (behind : s.Finds rest others) : s.Finds (c :: rest) (c :: found ++ others) := by
  obtain ⟨noted, order, goes⟩ := own
  obtain ⟨notedRest, orderRest, goesRest⟩ := behind
  -- The last child comes first, so the first one waits below all the others.
  refine ⟨notedRest ++ c :: noted, (orderRest.append (order.cons c)).trans List.perm_append_comm, ?_⟩
  intro pending later ends
  have first := goesRest (pending ++ [c]) (c :: (noted ++ later)) (.next present (goes pending later ends))
  simpa using first

theorem finds_of_below {depth : Nat} {i : Int} {found : List Int} (below : s.below depth i = .ok found) :
    ∃ b, s.bone i = .ok b ∧ s.Finds b.children found := by
  induction depth generalizing i found with
  | zero => cases below
  | succ depth ih =>
      obtain ⟨b, present, rest⟩ := Outcome.bind_eq_ok below
      obtain ⟨families, looked, same⟩ := Outcome.bind_eq_ok rest
      cases same
      refine ⟨b, present, ?_⟩
      have each := Outcome.forall₂_of_mapM looked
      clear looked rest below
      generalize b.children = children at each ⊢
      induction each with
      | nil => exact s.finds_nil
      | cons first _ behind =>
          obtain ⟨own, deeper, same⟩ := Outcome.bind_eq_ok first
          cases same
          obtain ⟨child, present, finds⟩ := ih deeper
          exact finds_cons present finds behind

theorem searched_of_descendants {i : Int} {found : List Int} (listed : s.descendants i = .ok found) :
    ∃ b noted, s.bone i = .ok b ∧ s.Searched b.children noted ∧ noted.Perm found := by
  obtain ⟨unsorted, below, same⟩ := Outcome.bind_eq_ok listed
  cases same
  obtain ⟨b, present, noted, order, goes⟩ := finds_of_below below
  have ends := goes [] [] .done
  rw [List.nil_append, List.append_nil] at ends
  exact ⟨b, noted, present, ends, order.trans (List.mergeSort_perm _ _).symm⟩

def progeny (s : Skeleton α) (i : Nat) : List Nat :=
  (List.range s.size).filter fun j => j ≠ i ∧ i ∈ s.lineage j

theorem mem_offspring {p c : Nat} : c ∈ offspring s.bones p ↔ s.parent? c = some p := by
  rw [offspring, List.mem_filter, List.mem_range, parent?_eq_some_iff, decide_eq_true_eq, Option.map_eq_some_iff]
  constructor
  · rintro ⟨-, grown⟩
    exact grown
  · rintro ⟨b, found, parent⟩
    exact ⟨(Array.getElem?_eq_some_iff.mp found).1, b, found, parent⟩

theorem nodup_offspring (bones : Array (Bone α)) (p : Nat) : (offspring bones p).Nodup := List.nodup_range.filter _

theorem mem_progeny {i j : Nat} : j ∈ s.progeny i ↔ j < s.size ∧ j ≠ i ∧ i ∈ s.lineage j := by
  rw [progeny, List.mem_filter, List.mem_range, decide_eq_true_eq]

theorem lt_of_mem_progeny (inPlace : s.InPlace) {i j : Nat} (member : j ∈ s.progeny i) : i < j := by
  obtain ⟨-, other, passes⟩ := mem_progeny.mp member
  have bound := le_of_mem_lineage inPlace passes
  omega

theorem nodup_progeny (s : Skeleton α) (i : Nat) : (s.progeny i).Nodup := List.nodup_range.filter _

theorem mem_progeny_iff (inPlace : s.InPlace) {i j : Nat} :
    j ∈ s.progeny i ↔ ∃ c, s.parent? c = some i ∧ j < s.size ∧ c ∈ s.lineage j := by
  rw [mem_progeny]
  constructor
  · rintro ⟨inside, other, passes⟩
    induction j using ascend inPlace with
    | root j parent =>
        rw [lineage_root parent, List.mem_singleton] at passes
        exact absurd passes.symm other
    | grown j p parent ih =>
        rcases (mem_lineage_grown inPlace parent).mp passes with above | rfl
        · by_cases near : p = i
          · subst p
            exact ⟨j, parent, inside, self_mem_lineage inPlace j⟩
          · have before := lt_of_parent? inPlace parent
            obtain ⟨c, grown, -, on⟩ := ih (by omega) near above
            exact ⟨c, grown, inside, (mem_lineage_grown inPlace parent).mpr (.inl on)⟩
        · exact absurd rfl other
  · rintro ⟨c, grown, inside, on⟩
    have above : i ∈ s.lineage c := (mem_lineage_grown inPlace grown).mpr (.inl (self_mem_lineage inPlace i))
    have before := lt_of_parent? inPlace grown
    have behind := le_of_mem_lineage inPlace on
    exact ⟨inside, by omega, mem_lineage_trans inPlace above on⟩

theorem sibling_unique (inPlace : s.InPlace) {i c d j : Nat} (first : s.parent? c = some i)
    (second : s.parent? d = some i) (onFirst : c ∈ s.lineage j) (onSecond : d ∈ s.lineage j) : c = d := by
  have one := lineage_starts inPlace onFirst
  have two := lineage_starts inPlace onSecond
  rw [lineage_grown inPlace first] at one
  rw [lineage_grown inPlace second] at two
  have same := (List.prefix_of_prefix_length_le one two (by simp)).eq_of_length (by simp)
  exact List.singleton_inj.mp (List.append_cancel_left same)

theorem progeny_perm (inPlace : s.InPlace) (i : Nat) :
    ((offspring s.bones i).flatMap fun c => c :: s.progeny c).Perm (s.progeny i) := by
  have mem_family {c j : Nat} (grown : s.parent? c = some i) :
      j ∈ c :: s.progeny c ↔ j < s.size ∧ c ∈ s.lineage j := by
    rw [List.mem_cons, mem_progeny]
    constructor
    · rintro (rfl | ⟨inside, -, on⟩)
      · exact ⟨size_of_parent? grown, self_mem_lineage inPlace j⟩
      · exact ⟨inside, on⟩
    · rintro ⟨inside, on⟩
      by_cases same : j = c
      · exact .inl same
      · exact .inr ⟨inside, same, on⟩
  -- Both sides are free of duplicates, so it is enough that they have the same members.
  rw [List.perm_ext_iff_of_nodup _ (s.nodup_progeny i)]
  · intro j
    rw [mem_progeny_iff inPlace, List.mem_flatMap]
    refine exists_congr fun c => ?_
    rw [mem_offspring]
    exact and_congr_right fun grown => mem_family grown
  · rw [List.nodup_flatMap]
    constructor
    · intro c _
      refine List.nodup_cons.mpr ⟨fun member => ?_, s.nodup_progeny c⟩
      exact Nat.lt_irrefl c (lt_of_mem_progeny inPlace member)
    · refine (nodup_offspring s.bones i).pairwise_of_forall_ne ?_
      intro c first d second different j below under
      rw [mem_offspring] at first second
      have onFirst := ((mem_family first).mp below).2
      have onSecond := ((mem_family second).mp under).2
      exact different (sibling_unique inPlace first second onFirst onSecond)

theorem found_of_families {children : List Nat} {families : List (List Int)}
    (each : List.Forall₂ (fun (c : Nat) family => ∃ found : List Nat, family = (c : Int) :: found.map Nat.cast ∧
      found.Perm (s.progeny c)) children families) :
    ∃ found : List Nat, families.flatten = found.map Nat.cast ∧
      found.Perm (children.flatMap fun c => c :: s.progeny c) := by
  induction each with
  | nil => exact ⟨[], rfl, .nil⟩
  | @cons c family _ families first _ behind =>
      obtain ⟨found, rfl, order⟩ := first
      obtain ⟨others, flat, orderOthers⟩ := behind
      refine ⟨c :: found ++ others, ?_, ?_⟩
      · rw [List.flatten_cons, flat, List.map_append, List.map_cons]
      · rw [List.flatMap_cons]
        exact (order.cons c).append orderOthers

theorem below_of_kin (inPlace : s.InPlace) (kin : Kin s.bones) {depth i : Nat} (inside : i < s.size)
    (deep : s.size ≤ i + depth) :
    ∃ found : List Nat, s.below depth i = .ok (found.map Nat.cast) ∧ found.Perm (s.progeny i) := by
  induction depth generalizing i with
  | zero => omega
  | succ depth ih =>
      have present : s.bones[i]? = some s.bones[i] := Array.getElem?_eq_getElem inside
      have each : ∀ x ∈ (offspring s.bones i).map (Nat.cast : Nat → Int), ∃ family : List Int,
          (do return x :: (← s.below depth x) : Except (Fault α) (List Int)) = .ok family ∧
            ∃ found : List Nat, family = x :: found.map Nat.cast ∧ found.Perm (s.progeny x.toNat) := by
        intro x member
        obtain ⟨c, grows, rfl⟩ := List.mem_map.mp member
        rw [mem_offspring] at grows
        have before := lt_of_parent? inPlace grows
        obtain ⟨found, below, order⟩ := ih (size_of_parent? grows) (by omega)
        exact ⟨_, by rw [below]; rfl, found, rfl, order⟩
      obtain ⟨families, looked, related⟩ := Outcome.mapM_relates each
      rw [List.forall₂_map_left_iff] at related
      obtain ⟨found, same, order⟩ := found_of_families related
      refine ⟨found, ?_, order.trans (progeny_perm inPlace i)⟩
      rw [below, bone_of_getElem? present, Outcome.ok_bind, kin i _ present, looked, ← same]
      rfl

theorem pairwise_progeny (s : Skeleton α) (i : Nat) : (s.progeny i).Pairwise (· < ·) := List.pairwise_lt_range.filter _

/-- The search below a bone comes to an end, and finds the bones whose line passes through it. -/
theorem descendants_of_kin (inPlace : s.InPlace) (kin : Kin s.bones) {i : Nat} (inside : i < s.size) :
    s.descendants i = .ok ((s.progeny i).map Nat.cast) := by
  have deep : s.size ≤ i + (s.size + 1) := by omega
  obtain ⟨found, below, order⟩ := below_of_kin inPlace kin inside deep
  rw [descendants, below, Outcome.ok_bind, Outcome.pure_eq]
  congr 1
  have sorted : ((found.map Nat.cast).mergeSort fun a b : Int => decide (a ≤ b)).Pairwise fun a b =>
      decide (a ≤ b) = true := by
    apply List.pairwise_mergeSort
    · intro a b c first second
      simp only [decide_eq_true_eq] at first second ⊢
      omega
    · intro a b
      simp only [Bool.or_eq_true, decide_eq_true_eq]
      omega
  refine List.Perm.eq_of_pairwise ?_ sorted ?_ ((List.mergeSort_perm _ _).trans (order.map _))
  · intro a b _ _ first second
    simp only [decide_eq_true_eq] at first second
    omega
  · refine List.pairwise_map.mpr ((s.pairwise_progeny i).imp ?_)
    intro a b less
    simp only [decide_eq_true_eq]
    omega

/-- Every bone grows on the bone before it or further up on the line of that bone. -/
def Preordered (s : Skeleton α) : Prop := ∀ i p, s.parent? (i + 1) = some p → p ∈ s.lineage i

theorem mem_progeny_of_succ (inPlace : s.InPlace) (preordered : s.Preordered) {i j : Nat}
    (member : j + 1 ∈ s.progeny i) (between : i < j) : j ∈ s.progeny i := by
  obtain ⟨inside, other, passes⟩ := mem_progeny.mp member
  cases parent : s.parent? (j + 1) with
  | none =>
      rw [lineage_root parent, List.mem_singleton] at passes
      omega
  | some p =>
      rcases (mem_lineage_grown inPlace parent).mp passes with above | same
      · exact mem_progeny.mpr ⟨by omega, by omega, mem_lineage_trans inPlace above (preordered j p parent)⟩
      · omega

/-- Where bones come depth first, those below a bone are the next ones behind it. -/
theorem progeny_of_preordered (inPlace : s.InPlace) (preordered : s.Preordered) (i : Nat) :
    ∃ m, s.progeny i = List.range' (i + 1) m := by
  -- The first bone behind that is not below it ends the range: from there on there is none.
  have ends : ∃ m, i + 1 + m ∉ s.progeny i := ⟨s.size, fun member => by have inside := (mem_progeny.mp member).1; omega⟩
  have outside (n : Nat) : i + 1 + Nat.find ends + n ∉ s.progeny i := by
    induction n with
    | zero => exact Nat.find_spec ends
    | succ n ih => exact fun member => ih (mem_progeny_of_succ inPlace preordered member (by omega))
  refine ⟨Nat.find ends, List.Perm.eq_of_pairwise ?_ (s.pairwise_progeny i) (List.pairwise_lt_range' 1) ?_⟩
  · intro a b _ _ less more
    omega
  · rw [List.perm_ext_iff_of_nodup (s.nodup_progeny i) (List.nodup_range' 1)]
    intro j
    rw [List.mem_range'_1]
    constructor
    · intro member
      refine ⟨lt_of_mem_progeny inPlace member, ?_⟩
      by_contra beyond
      have apart := outside (j - (i + 1 + Nat.find ends))
      rw [Nat.add_sub_cancel' (by omega)] at apart
      exact apart member
    · rintro ⟨behind, before⟩
      have found := Nat.find_min ends (m := j - (i + 1)) (by omega)
      rw [not_not, Nat.add_sub_cancel' behind] at found
      exact found

end Skeleton

end Arbor
