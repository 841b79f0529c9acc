import Arbor.Value.Reader
import Mathlib.Data.List.TakeWhile

/-!
# Nesting

How deep the lists and objects of a written value lie inside one another, counted on the characters alone, and what a
part that has been read leaves of the depth.
-/

namespace Arbor.Value

def opens (c : Char) : Bool := c = '[' || c = '\x7b'

def closes (c : Char) : Bool := c = ']' || c = '\x7d'

def isPlain (c : Char) : Bool := c ≠ '"' && !opens c && !closes c

/-- The most lists and objects that are open at once, from a place on where `depth` of them are, inside of a text or
not. -/
def nesting : Bool → Nat → List Char → Nat
  | _, depth, [] => depth
  | true, depth, '\\' :: _ :: rest => nesting true depth rest
  | true, depth, c :: rest => nesting (c ≠ '"') depth rest
  | false, depth, c :: rest =>
      if c = '"' then nesting true depth rest
      else if opens c then nesting false (depth + 1) rest
      else if closes c then max depth (nesting false (depth - 1) rest)
      else nesting false depth rest

variable {depth : Nat} {c : Char} {cs rest : List Char}

theorem le_nesting (quoted : Bool) (depth : Nat) (cs : List Char) : depth ≤ nesting quoted depth cs := by
  fun_induction nesting quoted depth cs with
  | case1 => exact Nat.le_refl _
  | case2 _ _ _ ih => exact ih
  | case3 _ _ _ _ ih => exact ih
  | case4 _ _ ih => exact ih
  | case5 _ _ _ _ _ ih => exact Nat.le_of_succ_le ih
  | case6 => exact Nat.le_max_left _ _
  | case7 _ _ _ _ _ _ ih => exact ih

theorem nesting_quote : nesting false depth ('"' :: rest) = nesting true depth rest := by
  rw [nesting, if_pos rfl]

theorem nesting_endQuote : nesting true depth ('"' :: rest) = nesting false depth rest := by
  rw [nesting]
  · rfl
  · intro _ _ equal
    cases equal

theorem nesting_escape : nesting true depth ('\\' :: c :: rest) = nesting true depth rest := by
  rw [nesting]

theorem nesting_quoted (quote : c ≠ '"') (escape : c ≠ '\\') : nesting true depth (c :: rest) = nesting true depth rest := by
  rw [nesting]
  · rw [decide_eq_true quote]
  · intro _ _ equal
    cases equal
    exact absurd rfl escape

theorem nesting_opens (opening : opens c = true) : nesting false depth (c :: rest) = nesting false (depth + 1) rest := by
  have quote : c ≠ '"' := by
    rintro rfl
    cases opening
  rw [nesting, if_neg quote, if_pos opening]

theorem le_nesting_closes (closing : closes c = true) :
    nesting false depth rest ≤ nesting false (depth + 1) (c :: rest) := by
  have quote : c ≠ '"' := by
    rintro rfl
    cases closing
  have opening : opens c ≠ true := by
    intro opening
    simp only [opens, closes, Bool.or_eq_true, decide_eq_true_eq] at opening closing
    rcases opening with rfl | rfl
    · simp at closing
    · simp at closing
  rw [nesting, if_neg quote, if_neg opening, if_pos closing]
  exact Nat.le_max_right _ _

theorem nesting_plain (plain : isPlain c = true) : nesting false depth (c :: rest) = nesting false depth rest := by
  simp only [isPlain, Bool.and_eq_true, decide_eq_true_eq, Bool.not_eq_true'] at plain
  rw [nesting, if_neg plain.1.1, if_neg (Bool.eq_false_iff.mp plain.1.2), if_neg (Bool.eq_false_iff.mp plain.2)]

theorem isPlain_of_isDigit (digit : c.isDigit = true) : isPlain c = true := by
  simp only [isPlain, opens, closes, Bool.and_eq_true, Bool.not_eq_true', Bool.or_eq_false_iff, decide_eq_true_eq,
    decide_eq_false_iff_not, ← ne_eq]
  refine ⟨⟨?_, ?_, ?_⟩, ?_, ?_⟩
  all_goals
    rintro rfl
    cases digit

theorem isPlain_of_isBlank (blank : isBlank c = true) : isPlain c = true := by
  simp only [isBlank, Bool.or_eq_true, decide_eq_true_eq, or_assoc] at blank
  rcases blank with rfl | rfl | rfl | rfl <;> rfl

def Passes (cs rest : List Char) : Prop := ∃ word, cs = word ++ rest ∧ ∀ c ∈ word, isPlain c = true

namespace Passes

theorem refl (cs : List Char) : Passes cs cs := ⟨[], rfl, fun _ member => (nomatch member)⟩

theorem cons (plain : isPlain c = true) : Passes (c :: cs) cs :=
  ⟨[c], rfl, by simpa using plain⟩

theorem trans {cs middle rest : List Char} (first : Passes cs middle) (second : Passes middle rest) : Passes cs rest := by
  obtain ⟨word, rfl, plain⟩ := first
  obtain ⟨more, rfl, others⟩ := second
  refine ⟨word ++ more, (List.append_assoc ..).symm, ?_⟩
  intro c member
  exact (List.mem_append.mp member).elim (plain c) (others c)

theorem dropWhile {p : Char → Bool} (plain : ∀ c, p c = true → isPlain c = true) (cs : List Char) :
    Passes cs (cs.dropWhile p) :=
  ⟨cs.takeWhile p, List.takeWhile_append_dropWhile.symm, fun c member => plain c (List.mem_takeWhile_imp member)⟩

theorem digits (cs : List Char) : Passes cs (cs.dropWhile Char.isDigit) := dropWhile (fun _ => isPlain_of_isDigit) cs

theorem blanks (cs : List Char) : Passes cs (skipBlanks cs) := dropWhile (fun _ => isPlain_of_isBlank) cs

theorem suffix (passes : Passes cs rest) : rest <:+ cs := by
  obtain ⟨word, rfl, -⟩ := passes
  exact List.suffix_append ..

theorem nesting_eq (passes : Passes cs rest) : nesting false depth cs = nesting false depth rest := by
  obtain ⟨word, rfl, plain⟩ := passes
  induction word with
  | nil => rfl
  | cons c word ih =>
      rw [List.cons_append, nesting_plain (plain c List.mem_cons_self)]
      exact ih fun other member => plain other (List.mem_cons_of_mem _ member)

end Passes

/-- What is left of a text behind a part of it, in which so many of the lists and objects around it end. -/
structure Leaves (levels : Nat) (cs rest : List Char) : Prop where
  suffix : rest <:+ cs
  nesting_le : ∀ depth, nesting false depth rest ≤ nesting false (depth + levels) cs

namespace Leaves

variable {levels : Nat}

theorem of_passes (passes : Passes cs rest) : Leaves 0 cs rest :=
  ⟨passes.suffix, fun _ => Nat.le_of_eq passes.nesting_eq.symm⟩

theorem trans {cs middle rest : List Char} (first : Leaves 0 cs middle) (second : Leaves levels middle rest) :
    Leaves levels cs rest :=
  ⟨second.suffix.trans first.suffix, fun depth => Nat.le_trans (second.nesting_le depth) (first.nesting_le (depth + levels))⟩

theorem closing (closing : closes c = true) : Leaves 1 (c :: rest) rest :=
  ⟨List.suffix_cons .., fun _ => le_nesting_closes closing⟩

theorem opening (opening : opens c = true) (inside : Leaves 1 cs rest) : Leaves 0 (c :: cs) rest :=
  ⟨inside.suffix.trans (List.suffix_cons ..), fun depth => by
    rw [Nat.add_zero, nesting_opens opening]
    exact inside.nesting_le depth⟩

end Leaves

end Arbor.Value
