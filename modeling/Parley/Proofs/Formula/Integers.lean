import Mathlib.Data.Nat.Digits.Defs
import Parley.Proofs.Formula.Printing
import Parley.Proofs.Formula.Scopes

/-!
# Integers as words

What is read as an integer is an optional sign and all the digits behind it, if there is one at
least and if the number that they stand for has 64 bits. How many digits there are does not matter:
zeros may stand before the others. What is printed for an integer is such a word.

- `digitsValue`, `writtenValue`: the number that is written with digits and a sign.
- `DigitRun`: a text that begins with a sign and digits.
- `integer_of_digitRun`, `integer_of_no_digitRun`: what comes of a text that does, and of one that
  does not.
- `integer_iff_digitRun`: what is read, and how far; and that printed integers are read back.
-/

namespace Parley.Formula

/-! ## Numbers as they are written -/

/-- The last digit counts once, and each of the others ten times as much as the one behind it. -/
def digitsValue (digits : List Char) : Nat :=
  Nat.ofDigits 10 (digits.reverse.map fun ch => ch.toNat - '0'.toNat)

/-- The number that is written with this sign, if there is one, and these digits. -/
def writtenValue (sign : Option Sign) (digits : List Char) : Int :=
  match sign with
  | some .minus => -(digitsValue digits : Int)
  | some .plus | none => digitsValue digits

theorem ofDigitChars_eq_digitsValue (digits : List Char) :
    Nat.ofDigitChars 10 digits 0 = digitsValue digits := by
  rw [digitsValue, Nat.ofDigits_eq_foldr, Nat.ofDigitChars_eq_foldl, List.map_reverse,
    List.foldr_reverse, List.foldl_map]
  simp only [Nat.cast_id, Nat.add_comm]

theorem decimal_eq_writtenValue (sign : Option Sign) (digits : List Char) :
    decimal sign digits = writtenValue sign digits := by
  rw [decimal, ofDigitChars_eq_digitsValue]
  rcases sign with - | - | - <;> rfl

/-- The numbers of 64 bits. -/
def IsInt64 (n : Int) : Prop :=
  -2 ^ 63 ≤ n ∧ n ≤ 2 ^ 63 - 1

theorem int64?_eq_some_iff {n : Int} {value : Int64} :
    int64? n = some value ↔ IsInt64 n ∧ value.toInt = n := by
  have hint64 : IsInt64 n ↔ -0x8000000000000000 ≤ n ∧ n < 0x8000000000000000 := by
    rw [IsInt64]
    omega
  rw [int64?, hint64]
  constructor
  · intro h
    split at h
    case isTrue hn =>
      obtain rfl := Option.some.inj h
      exact ⟨hn, Int64.toInt_ofInt_of_le hn.1 hn.2⟩
    case isFalse => cases h
  · rintro ⟨hn, rfl⟩
    rw [if_pos hn, Int64.ofInt_toInt]

theorem int64?_eq_none_iff {n : Int} : int64? n = none ↔ ¬ IsInt64 n := by
  rw [int64?, IsInt64]
  split <;> simp <;> omega

/-! ## Texts that begin with digits -/

/-- The text begins with a sign, which may be left out, and with digits, behind which no further one
stands. -/
structure DigitRun (text : List Char) (sign : Option Sign) (digits rest : List Char) : Prop where
  text_eq : text = signText sign ++ digits ++ rest
  digits_ne_nil : digits ≠ []
  isDigit_of_mem : ∀ ch ∈ digits, ch.isDigit = true
  ends : ∀ ch ∈ rest.head?, ch.isDigit = false

namespace Cursor

/-- What comes of a sign and digits. -/
theorem integer_of_digitRun {c : Cursor} {sign : Option Sign} {digits rest : List Char}
    (h : DigitRun c.rest sign digits rest) :
    c.integer = (int64? (writtenValue sign digits),
      if (int64? (writtenValue sign digits)).isSome then c.seek rest else c) := by
  obtain ⟨htake, hdrop⟩ := span_digits h.isDigit_of_mem h.ends
  have hsplit : splitSign c.rest = (sign, digits ++ rest) := by
    rw [h.text_eq, List.append_assoc]
    exact splitSign_append sign (isDigit_of_mem_head? h.digits_ne_nil h.isDigit_of_mem)
  have hvalue : integerOf? sign digits = int64? (writtenValue sign digits) := by
    rw [integerOf?, if_neg (by simpa using h.digits_ne_nil), ← decimal_eq_writtenValue]
    rfl
  rw [integer_eq, integerAt, hsplit, htake, hdrop, hvalue]

/-- Without a digit behind the sign there is no integer. -/
theorem integer_of_no_digitRun {c : Cursor}
    (h : ∀ sign digits rest, ¬ DigitRun c.rest sign digits rest) : c.integer = (none, c) := by
  refine integer_of_no_digit fun ch hch => Bool.eq_false_iff.2 fun hdigit => ?_
  refine h (splitSign c.rest).1 ((splitSign c.rest).2.takeWhile Char.isDigit)
    ((splitSign c.rest).2.dropWhile Char.isDigit) ⟨?_, ?_, fun _ => List.mem_takeWhile_imp, ?_⟩
  · rw [List.append_assoc, List.takeWhile_append_dropWhile]
    exact signText_append_splitSign c.rest
  · obtain ⟨rest, hrest⟩ := List.head?_eq_some_iff.1 hch
    rw [hrest, List.takeWhile_cons_of_pos hdigit]
    exact List.cons_ne_nil _ _
  · intro stop hstop
    have hnot := List.head?_dropWhile_not Char.isDigit (splitSign c.rest).2
    rwa [Option.mem_def.1 hstop] at hnot

end Cursor

open Cursor

/-- An integer is read exactly where a sign, which may be left out, and one digit or more stand, of
which the longest run with that sign stands for a number of 64 bits; just these are taken. Anywhere
else nothing is read and the cursor does not move. In particular every integer is read from what is
printed for it, whatever stands behind it that is no digit. -/
theorem integer_iff_digitRun (c : Cursor) :
    (∀ value c', c.integer = (some value, c') ↔
      ∃ sign digits rest, DigitRun c.rest sign digits rest ∧ IsInt64 (writtenValue sign digits) ∧
        value.toInt = writtenValue sign digits ∧ c' = c.seek rest) ∧
    (∀ c', c.integer = (none, c') ↔
      c' = c ∧ ∀ sign digits rest, DigitRun c.rest sign digits rest →
        ¬ IsInt64 (writtenValue sign digits)) ∧
    ∀ (id : ObjectId) (value : Int64) (rest : List Char), (∀ ch ∈ rest.head?, ch.isDigit = false) →
      (c.seek ((Object.integer id value).code.toList ++ rest)).integer =
        (some value, c.seek rest) := by
  refine ⟨fun value c' => ⟨fun h => ?_, ?_⟩, fun c' => ⟨fun h => ⟨?_, ?_⟩, ?_⟩, ?_⟩
  · by_cases hrun : ∃ sign digits rest, DigitRun c.rest sign digits rest
    · obtain ⟨sign, digits, rest, hrun⟩ := hrun
      rw [integer_of_digitRun hrun] at h
      obtain ⟨hvalue, hc⟩ := Prod.mk.inj h
      obtain ⟨hint64, heq⟩ := int64?_eq_some_iff.1 hvalue
      rw [hvalue] at hc
      exact ⟨sign, digits, rest, hrun, hint64, heq, hc.symm⟩
    · rw [integer_of_no_digitRun (by simpa using hrun)] at h
      cases h
  · rintro ⟨sign, digits, rest, hrun, hint64, heq, rfl⟩
    rw [integer_of_digitRun hrun, int64?_eq_some_iff.2 ⟨hint64, heq⟩]
    rfl
  · simpa [h] using c.integer_returns
  · intro sign digits rest hrun
    rw [integer_of_digitRun hrun] at h
    exact int64?_eq_none_iff.1 (Prod.mk.inj h).1
  · rintro ⟨rfl, hno⟩
    by_cases hrun : ∃ sign digits rest, DigitRun c'.rest sign digits rest
    · obtain ⟨sign, digits, rest, hrun⟩ := hrun
      rw [integer_of_digitRun hrun, int64?_eq_none_iff.2 (hno sign digits rest hrun)]
      rfl
    · exact integer_of_no_digitRun (by simpa using hrun)
  · intro id value rest hrest
    have hprinted : (c.seek ((Object.integer id value).code.toList ++ rest)).rest =
        (Numeral.ofInt64 value).text ++ rest := by
      rw [Numeral.text_ofInt64]
      rfl
    rw [integer_of_digits (Numeral.ofInt64 value) hprinted hrest, Numeral.integer_ofInt64]
    rfl

/-- The least number of 64 bits is read with a zero before its digits, and as it is printed. -/
theorem integer_iff_digitRun_least :
    let c := Cursor.ofText "-09223372036854775808]".toList
    let digits := "09223372036854775808".toList
    (DigitRun c.rest (some .minus) digits [']'] ∧ IsInt64 (writtenValue (some .minus) digits) ∧
      c.integer = (some Int64.minValue, c.seek [']'])) ∧
    (∀ ch ∈ [']'].head?, ch.isDigit = false) ∧
    (c.seek ((Object.integer 4 Int64.minValue).code.toList ++ [']'])).integer =
      (some Int64.minValue, c.seek [']']) := by
  intro c digits
  have hends : ∀ ch ∈ [']'].head?, ch.isDigit = false := by
    rintro ch ⟨⟩
    rfl
  have hdigits : ∀ ch ∈ digits, ch.isDigit = true := List.all_eq_true.1 (by decide)
  have hrun : DigitRun c.rest (some .minus) digits [']'] := ⟨rfl, by decide, hdigits, hends⟩
  have hvalue : Int64.minValue.toInt = writtenValue (some .minus) digits := by decide
  have hint64 : IsInt64 (writtenValue (some .minus) digits) := by
    rw [← hvalue]
    exact ⟨by decide, by decide⟩
  obtain ⟨hsome, -, hprinted⟩ := integer_iff_digitRun c
  exact ⟨⟨hrun, hint64, (hsome _ _).2 ⟨_, _, _, hrun, hint64, hvalue, rfl⟩⟩, hends,
    hprinted 4 _ _ hends⟩

end Parley.Formula
