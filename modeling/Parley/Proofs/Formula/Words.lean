import Mathlib.Data.List.TakeWhile
import Parley.Proofs.Formula.Tree

/-!
# Reading words

What the operations of a cursor do, told by the text that is left before and
after them. All of them only move the cursor (`Cursor.seek`).

- `skipBlank`: a text without the blank at its beginning.
- `Cursor.keyword_eq`, `Cursor.sign_eq`, `Cursor.integer_eq`: the readers of
  words, each as one equation.
- `expectChar_of_head` and the lemmas after it: rules that read one word.
- `Cursor.exists_numeral`, `Cursor.integer_of_digits`: what is read as an
  integer is a numeral, and a numeral is read as the integer it stands for.
-/

namespace Parley.Formula

/-! ## Blanks -/

/-- What is left of a text after the blank at its beginning. -/
def skipBlank (text : List Char) : List Char :=
  text.dropWhile isSpace

theorem exists_blank (text : List Char) : ∃ b : Blank, text = b.chars ++ skipBlank text :=
  ⟨⟨text.takeWhile isSpace, fun _ h => List.mem_takeWhile_imp h⟩,
    List.takeWhile_append_dropWhile.symm⟩

theorem Blank.skipBlank_append (b : Blank) (rest : List Char) :
    skipBlank (b.chars ++ rest) = skipBlank rest :=
  List.dropWhile_append_of_pos b.isSpace_of_mem

theorem Blank.skipBlank_chars (b : Blank) : skipBlank b.chars = [] := by
  rw [← List.append_nil b.chars, b.skipBlank_append]
  rfl

theorem skipBlank_cons {ch : Char} (h : isSpace ch = false) (rest : List Char) :
    skipBlank (ch :: rest) = ch :: rest :=
  List.dropWhile_cons_of_neg (by simp [h])

theorem Blank.skipBlank_append_cons (b : Blank) {ch : Char} {rest : List Char}
    (h : isSpace ch = false) : skipBlank (b.chars ++ ch :: rest) = ch :: rest := by
  rw [b.skipBlank_append, skipBlank_cons h]

@[simp] theorem skipBlank_skipBlank (text : List Char) :
    skipBlank (skipBlank text) = skipBlank text := by
  obtain ⟨b, hb⟩ := exists_blank text
  rw [← b.skipBlank_append (skipBlank text), ← hb]

theorem isSpace_of_skipBlank {text rest : List Char} {ch : Char}
    (h : skipBlank text = ch :: rest) : isSpace ch = false := by
  have hstop := List.head?_dropWhile_not isSpace text
  rwa [show (text.dropWhile isSpace).head? = some ch by rw [← skipBlank, h]; rfl] at hstop

theorem length_lt_of_skipBlank {text rest : List Char} {ch : Char}
    (h : skipBlank text = ch :: rest) : rest.length < text.length := by
  have hle := (List.dropWhile_suffix isSpace (l := text)).length_le
  rw [← skipBlank, h, List.length_cons] at hle
  exact hle

theorem le_toNat_of_isAlpha {ch : Char} (h : ch.isAlpha = true) : 65 ≤ ch.toNat := by
  rcases Bool.or_eq_true_iff.1 h with hupper | hlower
  · have hval : 'A'.val ≤ ch.val := (of_decide_eq_true hupper).1
    exact UInt32.le_iff_toNat_le.1 hval
  · have hval : 'a'.val ≤ ch.val := of_decide_eq_true (Bool.and_eq_true_iff.1 hlower).1
    exact Nat.le_trans (by decide) (UInt32.le_iff_toNat_le.1 hval)

theorem isAlpha_of_isDigit {ch : Char} (h : ch.isDigit = true) : ch.isAlpha = false := by
  by_contra halpha
  have hlo := le_toNat_of_isAlpha (by simpa using halpha)
  have hhi : ch.toNat ≤ 57 := (Char.isDigit_iff_toNat.1 h).2
  omega

/-- Identifier characters lie above all blanks. -/
theorem le_toNat_of_isIdentChar {ch : Char} (h : isIdentChar ch = true) : 48 ≤ ch.toNat := by
  rcases Bool.or_eq_true_iff.1 h with hword | hline
  · rcases Bool.or_eq_true_iff.1 hword with halpha | hdigit
    · exact Nat.le_trans (by decide) (le_toNat_of_isAlpha halpha)
    · exact (Char.isDigit_iff_toNat.1 hdigit).1
  · obtain rfl := eq_of_beq hline
    decide

theorem toNat_le_of_isSpace {ch : Char} (h : isSpace ch = true) : ch.toNat ≤ 32 := by
  simp only [isSpace, Bool.or_eq_true, Bool.and_eq_true, beq_iff_eq, decide_eq_true_eq] at h
  rcases h with rfl | h
  · decide
  · omega

/-- No identifier is made of characters that may stand between words. -/
theorem isIdentChar_of_isSpace {ch : Char} (h : isSpace ch = true) : isIdentChar ch = false := by
  by_contra hi
  have hlo := le_toNat_of_isIdentChar (by simpa using hi)
  have hhi := toNat_le_of_isSpace h
  omega

theorem isDigit_of_not_isIdentChar {ch : Char} (h : isIdentChar ch = false) :
    ch.isDigit = false := by
  simp only [isIdentChar, Char.isAlphanum, Bool.or_eq_false_iff] at h
  exact h.1.2

theorem isSpace_of_isDigit {ch : Char} (h : ch.isDigit = true) : isSpace ch = false := by
  by_contra hs
  have hident := isDigit_of_not_isIdentChar (isIdentChar_of_isSpace (by simpa using hs))
  rw [h] at hident
  cases hident

/-- A blank before a character that is not part of a word ends a word. -/
theorem Blank.startsInWord_append (b : Blank) {rest : List Char}
    (h : startsInWord rest = false) : startsInWord (b.chars ++ rest) = false := by
  match hb : b.chars with
  | [] => simpa using h
  | ch :: _ =>
    have hs : isSpace ch = true := b.isSpace_of_mem ch (by simp [hb])
    simp [startsInWord, isIdentChar_of_isSpace hs]

namespace Cursor

/-! ## Moving -/

/-- The same cursor at another place. -/
def seek (c : Cursor) (rest : List Char) : Cursor :=
  { c with rest }

@[simp] theorem rest_seek (c : Cursor) (rest : List Char) : (c.seek rest).rest = rest := rfl

@[simp] theorem rest_beginScope (c : Cursor) : c.beginScope.rest = c.rest := rfl

@[simp] theorem nesting_beginScope (c : Cursor) : c.beginScope.nesting = c.nesting := rfl

@[simp] theorem endScope_false_seek (c : Cursor) (rest : List Char) :
    (c.beginScope.seek rest).endScope false = c.seek rest := rfl

@[simp] theorem rest_endScope_false (c : Cursor) : (c.endScope false).rest = c.rest := by
  unfold endScope
  split <;> rfl

theorem skipSpaces_eq (c : Cursor) : c.skipSpaces = c.seek (skipBlank c.rest) := rfl

/-! ## Keywords -/

theorem keyword_eq (word : List Char) (c : Cursor) :
    c.keyword word =
      if word.isPrefixOf c.rest && !startsInWord (c.rest.drop word.length) then
        (true, c.seek (c.rest.drop word.length))
      else (false, c) := by
  -- the scope goes back exactly where the word runs on
  unfold keyword advanceIfText
  rw [rest_beginScope]
  cases word.isPrefixOf c.rest with
  | false => rfl
  | true =>
    generalize c.rest.drop word.length = rest
    show (!startsInWord rest, (c.beginScope.seek rest).endScope (!!startsInWord rest)) = _
    cases startsInWord rest <;> rfl

theorem keyword_found {word : List Char} {c c' : Cursor} (h : c.keyword word = (true, c')) :
    c.rest = word ++ c'.rest ∧ startsInWord c'.rest = false := by
  rw [keyword_eq] at h
  split at h
  case isTrue hw =>
    obtain ⟨hp, he⟩ := Bool.and_eq_true_iff.1 hw
    obtain rfl := (Prod.mk.inj h).2
    have happ := List.prefix_iff_eq_append.1 (List.isPrefixOf_iff_prefix.1 hp)
    exact ⟨happ.symm, by simpa using he⟩
  case isFalse => simp at h

theorem keyword_of_text {word rest : List Char} {c : Cursor} (h : c.rest = word ++ rest)
    (hend : startsInWord rest = false) : c.keyword word = (true, c.seek rest) := by
  simp [keyword_eq, h, hend, List.isPrefixOf_iff_prefix]

theorem keyword_of_absent {word : List Char} {c : Cursor}
    (h : word.isPrefixOf c.rest = false) : c.keyword word = (false, c) := by
  simp [keyword_eq, h]

/-! ## Signs and integers -/

theorem ofChar?_symbol (sign : Sign) : Sign.ofChar? sign.symbol = some sign := by
  cases sign <;> rfl

theorem symbol_of_ofChar? {ch : Char} {sign : Sign} (h : Sign.ofChar? ch = some sign) :
    ch = sign.symbol := by
  unfold Sign.ofChar? at h
  split at h
  · cases h; assumption
  · split at h
    · cases h; assumption
    · cases h

/-- A text cut after the sign at its beginning, if there is one. -/
def splitSign (text : List Char) : Option Sign × List Char :=
  match text.head?.bind Sign.ofChar? with
  | some sign => (some sign, text.tail)
  | none => (none, text)

theorem signText_append_splitSign (text : List Char) :
    text = signText (splitSign text).1 ++ (splitSign text).2 := by
  unfold splitSign
  split
  case h_1 sign h =>
    obtain ⟨ch, hc, hs⟩ := Option.bind_eq_some_iff.1 h
    obtain ⟨rest, rfl⟩ := List.head?_eq_some_iff.1 hc
    simp [signText, symbol_of_ofChar? hs]
  case h_2 => simp [signText]

theorem splitSign_symbol (sign : Sign) (rest : List Char) :
    splitSign (sign.symbol :: rest) = (some sign, rest) := by
  simp [splitSign, ofChar?_symbol]

theorem splitSign_of_none {text : List Char} (h : text.head?.bind Sign.ofChar? = none) :
    splitSign text = (none, text) := by
  simp [splitSign, h]

theorem sign_eq (c : Cursor) :
    c.sign = ((splitSign c.rest).1, c.seek (splitSign c.rest).2) := by
  unfold sign splitSign peek
  cases c.rest.head?.bind Sign.ofChar? <;> rfl

/-- The integer that stands at the beginning of a text, if there is one. -/
def integerAt (text : List Char) : Option Int64 :=
  integerOf? (splitSign text).1 ((splitSign text).2.takeWhile Char.isDigit)

theorem integer_eq (c : Cursor) :
    c.integer =
      (integerAt c.rest,
        if (integerAt c.rest).isSome then
          c.seek ((splitSign c.rest).2.dropWhile Char.isDigit)
        else c) := by
  rw [integer, sign_eq]
  cases h : integerAt c.rest <;>
    simp_all [integerAt, digits, endScope, beginScope, seek]

theorem integerOf?_eq_some_iff {sign : Option Sign} {digits : List Char} {value : Int64} :
    integerOf? sign digits = some value ↔
      digits ≠ [] ∧ -0x8000000000000000 ≤ decimal sign digits ∧
        decimal sign digits < 0x8000000000000000 ∧ Int64.ofInt (decimal sign digits) = value := by
  unfold integerOf? int64? decimal
  cases digits with
  | nil => simp
  | cons d ds => simp [and_assoc]

theorem exists_numeral {c c' : Cursor} {value : Int64} (h : c.integer = (some value, c')) :
    ∃ n : Numeral, c.rest = n.text ++ c'.rest ∧ value = n.integer := by
  rw [integer_eq] at h
  obtain ⟨hv, hc⟩ := Prod.mk.inj h
  obtain ⟨hne, hlo, hhi, hval⟩ := integerOf?_eq_some_iff.1 hv
  refine ⟨⟨_, _, hne, fun _ hd => List.mem_takeWhile_imp hd, hlo, hhi⟩, ?_, hval.symm⟩
  rw [← hc, hv, Numeral.text, List.append_assoc]
  simp only [Option.isSome_some, if_true, rest_seek, List.takeWhile_append_dropWhile]
  exact signText_append_splitSign c.rest

theorem not_isDigit_of_startsInWord {rest : List Char} (h : startsInWord rest = false) :
    ∀ ch ∈ rest.head?, ch.isDigit = false := by
  intro ch hch
  exact isDigit_of_not_isIdentChar (by simpa [startsInWord, Option.mem_def.1 hch] using h)

theorem span_digits {digits rest : List Char} (hd : ∀ ch ∈ digits, ch.isDigit = true)
    (hend : ∀ ch ∈ rest.head?, ch.isDigit = false) :
    (digits ++ rest).takeWhile Char.isDigit = digits ∧
      (digits ++ rest).dropWhile Char.isDigit = rest := by
  rw [List.takeWhile_append_of_pos hd, List.dropWhile_append_of_pos hd]
  cases rest with
  | nil => simp
  | cons ch rest =>
    have hc : ch.isDigit = false := hend ch rfl
    simp [hc]

theorem isDigit_symbol (sign : Sign) : sign.symbol.isDigit = false := by
  cases sign <;> rfl

theorem ofChar?_of_isDigit {ch : Char} (h : ch.isDigit = true) : Sign.ofChar? ch = none := by
  cases hs : Sign.ofChar? ch with
  | none => rfl
  | some sign => simp [symbol_of_ofChar? hs, isDigit_symbol] at h

/-- A sign is told apart from the digits behind it, also if it is left out. -/
theorem splitSign_append {text : List Char} (sign : Option Sign)
    (h : ∀ ch ∈ text.head?, ch.isDigit = true) :
    splitSign (signText sign ++ text) = (sign, text) := by
  cases sign with
  | some sign => exact splitSign_symbol sign text
  | none =>
    exact splitSign_of_none (Option.bind_eq_none_iff.2 fun ch hch => ofChar?_of_isDigit (h ch hch))

theorem isDigit_of_mem_head? {digits rest : List Char} (hne : digits ≠ [])
    (hd : ∀ ch ∈ digits, ch.isDigit = true) : ∀ ch ∈ (digits ++ rest).head?, ch.isDigit = true := by
  obtain ⟨d, ds, rfl⟩ := List.exists_cons_of_ne_nil hne
  rintro _ ⟨⟩
  exact hd d List.mem_cons_self

theorem splitSign_numeral (n : Numeral) (rest : List Char) :
    splitSign (n.text ++ rest) = (n.sign, n.digits ++ rest) := by
  rw [Numeral.text, List.append_assoc]
  exact splitSign_append n.sign (isDigit_of_mem_head? n.digits_ne_nil n.isDigit_of_mem)

/-- A numeral is read up to its last digit, whatever else comes after it. -/
theorem integer_of_digits {c : Cursor} {rest : List Char} (n : Numeral)
    (h : c.rest = n.text ++ rest) (hend : ∀ ch ∈ rest.head?, ch.isDigit = false) :
    c.integer = (some n.integer, c.seek rest) := by
  obtain ⟨htake, hdrop⟩ := span_digits n.isDigit_of_mem hend
  have hv : integerAt c.rest = some n.integer := by
    rw [integerAt, h, splitSign_numeral, htake]
    exact integerOf?_eq_some_iff.2 ⟨n.digits_ne_nil, n.le_decimal, n.decimal_lt, rfl⟩
  rw [integer_eq, hv, h, splitSign_numeral, hdrop]
  rfl

/-- No digit is left unread behind an integer. -/
theorem not_isDigit_of_integer {c c' : Cursor} {value : Int64} (h : c.integer = (some value, c')) :
    ∀ ch ∈ c'.rest.head?, ch.isDigit = false := by
  rw [integer_eq] at h
  obtain ⟨hv, hc⟩ := Prod.mk.inj h
  rw [hv] at hc
  intro ch hch
  have hstop := List.head?_dropWhile_not Char.isDigit (splitSign c.rest).2
  rw [← hc] at hch
  rwa [show ((splitSign c.rest).2.dropWhile Char.isDigit).head? = some ch from hch] at hstop

/-- There is no integer where no digit stands, a sign apart. -/
theorem integer_of_no_digit {c : Cursor}
    (h : ∀ ch ∈ (splitSign c.rest).2.head?, ch.isDigit = false) : c.integer = (none, c) := by
  have hv : integerAt c.rest = none := by
    have htake : (splitSign c.rest).2.takeWhile Char.isDigit = [] :=
      (span_digits (List.forall_mem_nil _) h).1
    rw [integerAt, htake]
    rfl
  rw [integer_eq, hv]
  rfl

theorem advanceIf_eq (ch : Char) (c : Cursor) :
    c.advanceIf ch =
      if c.rest.head? = some ch then (true, c.seek c.rest.tail) else (false, c) :=
  rfl

end Cursor

/-! ## Rules that read one word -/

section Rules

variable {c : Cursor} {s : ObjectId} {ch : Char}

theorem skipSpaces_of_skipBlank {rest : List Char} (h : skipBlank c.rest = rest) :
    skipSpaces c s = (.found (), c.seek rest, s) := by
  rw [← h]
  rfl

theorem expectChar_of_head {rest : List Char} (h : c.rest = ch :: rest) :
    expectChar ch c s = (.found (), c.seek rest, s) := by
  simp [expectChar, Rule.expect, Cursor.advanceIf_eq, h]

theorem expectChar_of_not_head (h : c.rest.head? ≠ some ch) :
    expectChar ch c s = (.missing, c, s) := by
  simp [expectChar, Rule.expect, Cursor.advanceIf_eq, h]

theorem acceptChar_of_head {rest : List Char} (h : c.rest = ch :: rest) :
    acceptChar ch c s = (.found true, c.seek rest, s) := by
  simp [acceptChar, Rule.choose, Cursor.advanceIf_eq, h]

theorem acceptChar_of_not_head (h : c.rest.head? ≠ some ch) :
    acceptChar ch c s = (.found false, c, s) := by
  simp [acceptChar, Rule.choose, Cursor.advanceIf_eq, h]

theorem constant_of_keyword {word : String} (yielded : Yield) {c' : Cursor}
    (h : c.keyword word.toList = (true, c')) :
    constant word yielded c s = (.found (yielded.settle s).1, c', (yielded.settle s).2) := by
  show Rule.bind (Rule.expect (Cursor.keyword word.toList)) _ c s = _
  simp only [Rule.bind, Rule.expect, h, if_true]
  rfl

theorem constant_of_no_keyword {word : String} (yielded : Yield) {c' : Cursor}
    (h : c.keyword word.toList = (false, c')) :
    constant word yielded c s = (.missing, c, s) := by
  obtain rfl : c' = c := by
    rw [Cursor.keyword_eq] at h
    split at h <;> cases h
    rfl
  show Rule.bind (Rule.expect (Cursor.keyword word.toList)) _ c' s = _
  simp only [Rule.bind, Rule.expect, h]
  rfl

end Rules

end Parley.Formula
