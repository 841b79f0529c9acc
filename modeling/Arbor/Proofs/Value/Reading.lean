import Arbor.Proofs.Outcome
import Arbor.Proofs.Value.Nesting
import Mathlib.Data.Nat.Digits.Lemmas

namespace Arbor.Decimal

theorem ofDigits_lt {digits : List Nat} (single : ∀ d ∈ digits, d < 10) : ofDigits digits < 10 ^ digits.length := by
  have reversed : ofDigits digits = Nat.ofDigits 10 digits.reverse := by
    rw [ofDigits, Nat.ofDigits_eq_foldr, List.foldr_reverse]
    refine congrArg (fun f => digits.foldl f 0) ?_
    funext n d
    exact Nat.add_comm _ _
  rw [reversed, ← List.length_reverse]
  exact Nat.ofDigits_lt_base_pow_length (by decide) fun d member => single d (List.mem_reverse.mp member)

theorem isWritable_of_ofDigits {digits : List Nat} (single : ∀ d ∈ digits, d < 10) (few : digits.length ≤ digitLimit)
    {n : Int} (same : n.natAbs = ofDigits digits) : isWritable n = true := by
  have more {least most : Nat} (le : least ≤ most) : 10 ^ least ≤ Nat.pow 10 most := Nat.pow_le_pow_right (by decide) le
  exact decide_eq_true (same ▸ Nat.lt_of_lt_of_le (ofDigits_lt single) (more few))

end Arbor.Decimal

namespace Arbor.Value

inductive Written {α : Type} : Value α → Prop where
  | null : Written .null
  | bool (b : Bool) : Written (.bool b)
  | int {n : Int} (short : Decimal.isWritable n = true) : Written (.int n)
  | real (x : α) : Written (.real x)
  | text (t : Text) : Written (.text t)
  | list {items : List (Value α)} (each : ∀ item ∈ items, Written item) : Written (.list items)
  | object {fields : List (Text × Value α)} (each : ∀ field ∈ fields, Written field.2) : Written (.object fields)

/-- What a text holds that is not read, with room for values inside one another down to a depth. -/
def Warranted (room : Nat) (cs : List Char) : ReadFault → Prop
  | .malformed => True
  | .tooManyDigits => ∃ digits, digits <:+: cs ∧ (∀ c ∈ digits, c.isDigit = true) ∧ Decimal.digitLimit < digits.length
  -- A reader does not know how deep it stands, only how much room is left.
  | .tooDeep => ∀ depth, depth + room < nesting false depth cs

/-- How a reading can end: with something good and what is left, or at a fault that the text warrants. -/
def Accounted {β : Type} (good : β → Prop) (room levels : Nat) (cs : List Char) :
    Except ReadFault (β × List Char) → Prop
  | .ok (x, rest) => good x ∧ Leaves levels cs rest
  | .error fault => Warranted room cs fault

variable {β γ : Type} {good : β → Prop} {better : γ → Prop} {room levels : Nat} {cs rest : List Char}

theorem Warranted.behind {fault : ReadFault} (left : Leaves 0 cs rest) (warranted : Warranted room rest fault) :
    Warranted room cs fault := by
  cases fault with
  | malformed => trivial
  | tooManyDigits =>
      obtain ⟨digits, inside, each, many⟩ := warranted
      exact ⟨digits, inside.trans left.suffix.isInfix, each, many⟩
  | tooDeep => exact fun depth => Nat.lt_of_lt_of_le (warranted depth) (left.nesting_le depth)

namespace Accounted

theorem malformed : Accounted good room levels cs (.error .malformed) := trivial

theorem behind {outcome : Except ReadFault (β × List Char)} (left : Leaves 0 cs rest)
    (accounted : Accounted good room levels rest outcome) : Accounted good room levels cs outcome := by
  cases outcome with
  | error fault => exact Warranted.behind left accounted
  | ok result => exact ⟨accounted.1, left.trans accounted.2⟩

theorem bind {first : Except ReadFault (β × List Char)} {next : β × List Char → Except ReadFault (γ × List Char)}
    (accounted : Accounted good room 0 cs first)
    (later : ∀ x rest, good x → Accounted better room levels rest (next (x, rest))) :
    Accounted better room levels cs (first >>= next) := by
  cases first with
  | error fault => exact accounted
  | ok result => exact behind accounted.2 (later _ _ accounted.1)

theorem map {first : Except ReadFault (β × List Char)} {f : β → γ} (accounted : Accounted good room levels cs first)
    (turned : ∀ x, good x → better (f x)) :
    Accounted better room levels cs (first >>= fun result => .ok (f result.1, result.2)) := by
  cases first with
  | error fault => exact accounted
  | ok result => exact ⟨turned _ accounted.1, accounted.2⟩

theorem full {c : Char} (opening : opens c = true) : Accounted good 0 levels (c :: cs) (.error .tooDeep) := by
  intro depth
  rw [nesting_opens opening]
  exact le_nesting ..

theorem opening {c : Char} {outcome : Except ReadFault (β × List Char)} (opening : opens c = true)
    (inside : Accounted good room 1 cs outcome) : Accounted good (room + 1) 0 (c :: cs) outcome := by
  cases outcome with
  | ok result => exact ⟨inside.1, inside.2.opening opening⟩
  | error fault =>
      cases fault with
      | malformed => trivial
      | tooManyDigits =>
          obtain ⟨digits, within, each, many⟩ := inside
          exact ⟨digits, within.trans (List.suffix_cons c cs).isInfix, each, many⟩
      | tooDeep =>
          intro depth
          rw [nesting_opens opening]
          exact Nat.lt_of_le_of_lt (Nat.le_of_eq (by omega)) (inside (depth + 1))

end Accounted

/-! ### Texts -/

theorem unmarked_of_hexValue? {c : Char} {n : Nat} (hex : hexValue? c = some n) : c ≠ '"' ∧ c ≠ '\\' := by
  constructor
  · rintro rfl
    cases hex
  · rintro rfl
    cases hex

theorem unit?_leaves {n : Nat} (read : unit? cs = some (n, rest)) :
    rest <:+ cs ∧ ∀ depth, nesting true depth cs = nesting true depth rest := by
  match cs with
  | a :: b :: c :: d :: more =>
      simp only [unit?, Option.bind_eq_bind, Option.bind_eq_some_iff, Option.pure_def, Option.some.injEq, Prod.mk.injEq]
        at read
      obtain ⟨_, ha, _, hb, _, hc, _, hd, -, rfl⟩ := read
      refine ⟨⟨[a, b, c, d], rfl⟩, fun depth => ?_⟩
      rw [nesting_quoted (unmarked_of_hexValue? ha).1 (unmarked_of_hexValue? ha).2,
        nesting_quoted (unmarked_of_hexValue? hb).1 (unmarked_of_hexValue? hb).2,
        nesting_quoted (unmarked_of_hexValue? hc).1 (unmarked_of_hexValue? hc).2,
        nesting_quoted (unmarked_of_hexValue? hd).1 (unmarked_of_hexValue? hd).2]

theorem escapedUnit?_leaves {p : CodePoint} (read : escapedUnit? cs = some (p, rest)) :
    rest <:+ cs ∧ ∀ depth, nesting true depth cs = nesting true depth rest := by
  simp only [escapedUnit?, Option.bind_eq_bind, Option.bind_eq_some_iff] at read
  obtain ⟨⟨n, behind⟩, first, read⟩ := read
  obtain ⟨suffix, same⟩ := unit?_leaves first
  have single {q : CodePoint} (ends : (some (q, behind) : Option (CodePoint × List Char)) = some (p, rest)) :
      rest <:+ cs ∧ ∀ depth, nesting true depth cs = nesting true depth rest := by
    cases ends
    exact ⟨suffix, same⟩
  simp only [Option.pure_def] at read
  split at read
  · split at read
    · rename_i more
      split at read
      · rename_i low last second
        -- The second escape is taken up only where it is the other half of a pair.
        split at read
        · cases read
          obtain ⟨further, alike⟩ := unit?_leaves second
          refine ⟨further.trans ((List.suffix_append ['\\', 'u'] more).trans suffix), fun depth => ?_⟩
          rw [same, nesting_escape, alike]
        · exact single read
      · exact single read
    · exact single read
  · exact single read

theorem points_accounted (fuel : Nat) (read : Text) (cs : List Char) :
    match points fuel read cs with
    | .ok (_, rest) => rest <:+ cs ∧ ∀ depth, nesting true depth cs = nesting false depth rest
    | .error fault => fault = .malformed := by
  fun_induction points fuel read cs with
  | case1 => rfl
  | case2 => rfl
  | case3 _ _ rest => exact ⟨List.suffix_cons .., fun _ => nesting_endQuote⟩
  | case4 fuel read rest p behind escaped ih =>
      obtain ⟨suffix, same⟩ := escapedUnit?_leaves escaped
      split at ih
      · refine ⟨ih.1.trans (suffix.trans (List.suffix_append ['\\', 'u'] rest)), fun depth => ?_⟩
        rw [nesting_escape, same, ih.2]
      · exact ih
  | case5 => rfl
  | case6 fuel read letter rest _ c _ ih =>
      split at ih
      · refine ⟨ih.1.trans (List.suffix_append ['\\', letter] rest), fun depth => ?_⟩
        rw [nesting_escape, ih.2]
      · exact ih
  | case7 => rfl
  | case8 => rfl
  | case9 fuel read c rest quote _ _ allowed ih =>
      split at ih
      · refine ⟨ih.1.trans (List.suffix_cons ..), fun depth => ?_⟩
        rw [nesting_quoted quote fun escape => allowed (.inr escape), ih.2]
      · exact ih

theorem string_accounted (cs : List Char) : Accounted (fun _ => True) room 0 ('"' :: cs) (string cs) := by
  have read := points_accounted (cs.length + 1) [] cs
  rw [← string] at read
  cases outcome : string cs with
  | error fault =>
      rw [outcome] at read
      cases read
      trivial
  | ok result =>
      rw [outcome] at read
      refine ⟨trivial, read.1.trans (List.suffix_cons ..), fun depth => ?_⟩
      rw [Nat.add_zero, nesting_quote, read.2]

/-! ### Numbers and constants -/

theorem wholeDigits_passes (cs : List Char) :
    cs = (wholeDigits cs).1 ++ (wholeDigits cs).2 ∧ ∀ c ∈ (wholeDigits cs).1, c.isDigit = true := by
  rw [wholeDigits.eq_def]
  split
  · refine ⟨rfl, ?_⟩
    simp
  · exact ⟨List.takeWhile_append_dropWhile.symm, fun c member => List.mem_takeWhile_imp member⟩

theorem fractionDigits_passes (cs : List Char) : Passes cs (fractionDigits cs).2 := by
  rw [fractionDigits.eq_def]
  split
  · split
    · exact .refl _
    · exact (Passes.cons rfl).trans (.digits _)
  · exact .refl _

theorem exponentSign_passes (cs : List Char) : Passes cs (exponentSign cs).2 := by
  rw [exponentSign.eq_def]
  split
  · exact .cons rfl
  · exact .cons rfl
  · exact .refl _

theorem exponent_passes (cs : List Char) : Passes cs (exponent cs).2 := by
  rw [exponent.eq_def]
  split
  · exact .refl _
  · rename_i c rest
    split
    · rename_i mark
      have plain : isPlain c = true := by
        rcases mark with rfl | rfl <;> rfl
      dsimp only
      split
      · exact .refl _
      · exact ((Passes.cons plain).trans (exponentSign_passes rest)).trans (.digits _)
    · exact .refl _

theorem digitValue_lt {c : Char} (digit : c.isDigit = true) : digitValue c < 10 := by
  simp only [Char.isDigit, Bool.and_eq_true, decide_eq_true_eq, ge_iff_le, UInt32.le_iff_toNat_le] at digit
  have last : c.toNat ≤ 57 := digit.2
  have zero : '0'.toNat = 48 := rfl
  rw [digitValue, zero]
  omega

theorem number_accounted (negative : Bool) (cs : List Char) : Accounted Written room 0 cs (number negative cs) := by
  obtain ⟨parts, digits⟩ := wholeDigits_passes cs
  have passes : Passes cs (exponent (fractionDigits (wholeDigits cs).2).2).2 :=
    (Passes.trans ⟨_, parts, fun c member => isPlain_of_isDigit (digits c member)⟩ (fractionDigits_passes _)).trans
      (exponent_passes _)
  simp only [number]
  split
  · exact .malformed
  · split
    · split
      · rename_i many
        exact ⟨_, ⟨[], _, parts.symm⟩, digits, many⟩
      · rename_i few
        refine ⟨.int ?_, .of_passes passes⟩
        have single : ∀ d ∈ (wholeDigits cs).1.map digitValue, d < 10 := by
          intro d member
          obtain ⟨c, inside, rfl⟩ := List.mem_map.mp member
          exact digitValue_lt (digits c inside)
        refine Decimal.isWritable_of_ofDigits single ?_ ?_
        · rw [List.length_map]
          omega
        · split
          · rw [Int.natAbs_neg, Int.natAbs_natCast]
          · rw [Int.natAbs_natCast]
    · exact ⟨.real _, .of_passes passes⟩

theorem constants_plain : ∀ entry ∈ constants, (∀ c ∈ entry.1, isPlain c = true) ∧ Written entry.2 := by
  simp only [constants, List.forall_mem_cons, List.not_mem_nil, false_implies, implies_true, and_true]
  refine ⟨⟨?_, .null⟩, ⟨?_, .bool _⟩, ⟨?_, .bool _⟩, ⟨?_, .real _⟩, ⟨?_, .real _⟩, ?_, .real _⟩
  all_goals
    rw [← List.all_eq_true]
    rfl

theorem atom_accounted (cs : List Char) : Accounted Written room 0 cs (atom cs) := by
  rw [atom.eq_def]
  split
  · rename_i found hit
    obtain ⟨entry, member, read⟩ := List.exists_of_findSome?_eq_some hit
    obtain ⟨plain, written⟩ := constants_plain entry member
    rw [after?] at read
    split at read
    · rename_i starts
      obtain ⟨rest, rfl⟩ := List.isPrefixOf_iff_prefix.mp starts
      rw [Option.map_some, Option.some.injEq, List.drop_left] at read
      subst read
      exact ⟨written, .of_passes ⟨entry.1, rfl, plain⟩⟩
    · cases read
  · split
    · exact .behind (.of_passes (.cons rfl)) (number_accounted true _)
    · exact number_accounted false cs

/-! ### Lists and objects -/

section

variable {fuel : Nat}

theorem value_accounted
    (list : ∀ room cs, Accounted (fun found => ∀ item ∈ found, Written item) room 1 cs (items room fuel cs))
    (object : ∀ room cs, Accounted (fun found => ∀ field ∈ found, Written field.2) room 1 cs (fields room fuel cs))
    (room : Nat) (cs : List Char) : Accounted Written room 0 cs (value room (fuel + 1) cs) := by
  rw [value.eq_def]
  dsimp only
  split
  · exact (string_accounted _).map fun t _ => .text t
  · exact .full rfl
  · exact .full rfl
  · rename_i rest room
    refine .opening rfl (.behind (.of_passes (.blanks rest)) ?_)
    split
    · rename_i behind ends
      rw [ends]
      exact ⟨.list fun _ member => (nomatch member), .closing rfl⟩
    · exact (list room _).map fun _ each => .list each
  · rename_i rest room
    refine .opening rfl (.behind (.of_passes (.blanks rest)) ?_)
    split
    · rename_i behind ends
      rw [ends]
      exact ⟨.object fun _ member => (nomatch member), .closing rfl⟩
    · refine (object room (skipBlanks rest)).map (f := fun fields => Value.object (Table.ofList fields)) fun _ each => ?_
      exact .object fun field member => each field (Table.mem_ofList member)
  · exact atom_accounted cs

theorem items_accounted (one : ∀ room cs, Accounted Written room 0 cs (value room fuel cs))
    (more : ∀ room cs, Accounted (fun found => ∀ item ∈ found, Written item) room 1 cs (items room fuel cs))
    (room : Nat) (cs : List Char) :
    Accounted (fun found => ∀ item ∈ found, Written item) room 1 cs (items room (fuel + 1) cs) := by
  rw [items]
  refine (one room cs).bind fun item rest written => ?_
  refine .behind (.of_passes (.blanks rest)) ?_
  dsimp only
  split
  · rename_i behind ends
    rw [ends]
    exact ⟨by simpa using written, .closing rfl⟩
  · rename_i behind goesOn
    rw [goesOn]
    refine .behind (.of_passes ((Passes.cons rfl).trans (.blanks behind))) ((more room _).map fun items each => ?_)
    exact List.forall_mem_cons.mpr ⟨written, each⟩
  · exact .malformed

theorem fields_accounted (one : ∀ room cs, Accounted Written room 0 cs (value room fuel cs))
    (more : ∀ room cs, Accounted (fun found => ∀ field ∈ found, Written field.2) room 1 cs (fields room fuel cs))
    (room : Nat) (cs : List Char) :
    Accounted (fun found => ∀ field ∈ found, Written field.2) room 1 cs (fields room (fuel + 1) cs) := by
  rw [fields.eq_def]
  dsimp only
  split
  · refine (string_accounted _).bind fun name rest _ => ?_
    refine .behind (.of_passes (.blanks rest)) ?_
    dsimp only
    split
    · rename_i colon
      rw [colon]
      refine .behind (.of_passes ((Passes.cons rfl).trans (.blanks _))) ?_
      refine (one room _).bind fun item rest written => ?_
      refine .behind (.of_passes (.blanks rest)) ?_
      dsimp only
      split
      · rename_i ends
        rw [ends]
        exact ⟨by simpa using written, .closing rfl⟩
      · rename_i goesOn
        rw [goesOn]
        refine .behind (.of_passes ((Passes.cons rfl).trans (.blanks _))) ((more room _).map fun fields each => ?_)
        exact List.forall_mem_cons.mpr ⟨written, each⟩
      · exact .malformed
    · exact .malformed
  · exact .malformed

end

theorem accounted (fuel : Nat) :
    (∀ room cs, Accounted Written room 0 cs (value room fuel cs)) ∧
      (∀ room cs, Accounted (fun found => ∀ item ∈ found, Written item) room 1 cs (items room fuel cs)) ∧
      ∀ room cs, Accounted (fun found => ∀ field ∈ found, Written field.2) room 1 cs (fields room fuel cs) := by
  -- Each of the readers calls the others with less fuel, so they are accounted for together.
  induction fuel with
  | zero =>
      refine ⟨?_, ?_, ?_⟩ <;> intro room cs
      · rw [value]
        exact .malformed
      · rw [items]
        exact .malformed
      · rw [fields]
        exact .malformed
  | succ fuel ih =>
      obtain ⟨one, list, object⟩ := ih
      exact ⟨value_accounted list object, items_accounted one list, fields_accounted one object⟩

theorem ofText_accounted (room : Nat) (cs : List Char) :
    match ofText room cs with
    | .ok v => Written v
    | .error fault => Warranted room cs fault := by
  have read := ((accounted (cs.length + 1)).1 room (skipBlanks cs)).behind (.of_passes (.blanks cs))
  rw [ofText]
  cases outcome : value room (cs.length + 1) (skipBlanks cs) with
  | error fault =>
      rw [outcome] at read
      exact read
  | ok result =>
      rw [outcome] at read
      rw [Outcome.ok_bind]
      dsimp only
      by_cases ends : (skipBlanks result.2).isEmpty = true
      · rw [if_pos ends]
        exact read.1
      · rw [if_neg ends]
        trivial

/-! What is made of a text that goes on as it has to. -/

theorem value_text {room fuel : Nat} {cs rest : List Char} {t : Text} (read : string cs = .ok (t, rest)) :
    value room (fuel + 1) ('"' :: cs) = .ok (.text t, rest) := by
  rw [value, read]
  rfl

theorem value_object {room fuel : Nat} {cs rest : List Char} {table : Table Text (Value Float)}
    (entries : List (Text × Value Float)) (read : fields room fuel ('"' :: cs) = .ok (entries, rest))
    (kept : Table.ofList entries = table) :
    value (room + 1) (fuel + 1) ('\x7b' :: '"' :: cs) = .ok (.object table, rest) := by
  rw [value, ← kept]
  change (fields room fuel ('"' :: cs) >>= _) = _
  rw [read]
  rfl

section

variable {room fuel : Nat} {cs middle later rest : List Char} {name : Text} {item : Value Float}
  (named : string cs = .ok (name, ':' :: middle))

include named

theorem fields_last (read : value room fuel (skipBlanks middle) = .ok (item, '\x7d' :: rest)) :
    fields room (fuel + 1) ('"' :: cs) = .ok ([(name, item)], rest) := by
  rw [fields, named]
  change (value room fuel (skipBlanks middle) >>= _) = _
  rw [read]
  rfl

theorem fields_more {entries : List (Text × Value Float)}
    (read : value room fuel (skipBlanks middle) = .ok (item, ',' :: later))
    (others : fields room fuel (skipBlanks later) = .ok (entries, rest)) :
    fields room (fuel + 1) ('"' :: cs) = .ok ((name, item) :: entries, rest) := by
  rw [fields, named]
  change (value room fuel (skipBlanks middle) >>= _) = _
  rw [read]
  change (fields room fuel (skipBlanks later) >>= _) = _
  rw [others]
  rfl

end

end Arbor.Value
