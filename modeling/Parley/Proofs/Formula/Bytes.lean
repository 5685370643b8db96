import Parley.Proofs.Formula.Balance
import Parley.Text.Cut

/-!
# Cursors that count bytes

The places of a cursor can be kept as numbers: how many bytes of the text stand before each. To
look at the text it then has to be cut at such a number, which cannot be done inside a character or
behind the end, and what is read is added to the number: the bytes of a character, those of a
pattern, or one for each space.

- `isValid_iff_exists_append`: the valid positions of a text.
- `ByteCursor`: such a cursor, with the operations of cursors and of the readers of words. One that
  has to cut the text where it cannot be cut has no result.
- `Cursor.bytes`: a cursor in numbers of bytes.
- `ByteCursor.remaining?_bytes` and the lemmas after it: on the numbers of a cursor whose place is
  in its text, every operation has a result, which is that of the cursor.
-/

namespace Parley.Formula

/-! ## Cutting a text -/

@[simp] theorem byteLength_append (before rest : List Char) :
    byteLength (before ++ rest) = byteLength before + byteLength rest := by
  induction before with
  | nil => simp [byteLength]
  | cons ch before ih =>
    rw [List.cons_append, byteLength, byteLength, ih]
    omega

theorem byteLength_eq_utf8ByteSize (text : List Char) :
    byteLength text = (String.ofList text).utf8ByteSize := by
  induction text with
  | nil => rfl
  | cons ch text ih => simp [byteLength, ih]

theorem dropBytes?_cons (ch : Char) (text : List Char) (n : Nat) :
    Text.dropBytes? (ch :: text) (ch.utf8Size + n) = Text.dropBytes? text n := by
  have hpos := ch.utf8Size_pos
  obtain ⟨m, hm⟩ : ∃ m, ch.utf8Size + n = m + 1 := Nat.exists_eq_succ_of_ne_zero (by omega)
  rw [hm, Text.dropBytes?, if_pos (by omega), ← hm, Nat.add_sub_cancel_left]

theorem takeBytes?_cons (ch : Char) (text : List Char) (n : Nat) :
    Text.takeBytes? (ch :: text) (ch.utf8Size + n) = (Text.takeBytes? text n).map (ch :: ·) := by
  have hpos := ch.utf8Size_pos
  obtain ⟨m, hm⟩ : ∃ m, ch.utf8Size + n = m + 1 := Nat.exists_eq_succ_of_ne_zero (by omega)
  rw [hm, Text.takeBytes?, if_pos (by omega), ← hm, Nat.add_sub_cancel_left]

theorem dropBytes?_append (before rest : List Char) :
    Text.dropBytes? (before ++ rest) (byteLength before) = some rest := by
  induction before with
  | nil => cases rest <;> rfl
  | cons ch before ih => rw [List.cons_append, byteLength, dropBytes?_cons, ih]

theorem takeBytes?_append (before rest : List Char) :
    Text.takeBytes? (before ++ rest) (byteLength before) = some before := by
  induction before with
  | nil => cases rest <;> rfl
  | cons ch before ih => rw [List.cons_append, byteLength, takeBytes?_cons, ih, Option.map_some]

theorem exists_append_of_dropBytes? {text rest : List Char} {n : Nat}
    (h : Text.dropBytes? text n = some rest) :
    ∃ before, text = before ++ rest ∧ byteLength before = n := by
  induction text generalizing n with
  | nil =>
    cases n with
    | zero =>
      cases h
      exact ⟨[], rfl, rfl⟩
    | succ n => cases h
  | cons ch text ih =>
    cases n with
    | zero =>
      cases h
      exact ⟨[], rfl, rfl⟩
    | succ n =>
      rw [Text.dropBytes?] at h
      split at h
      · obtain ⟨before, rfl, hbefore⟩ := ih h
        exact ⟨ch :: before, rfl, by rw [byteLength, hbefore]; omega⟩
      · cases h

/-- A position is valid exactly behind some of the first characters. -/
theorem isValid_iff_exists_append {text : List Char} {n : Nat} :
    (String.Pos.Raw.mk n).IsValid (String.ofList text) ↔
      ∃ before rest, text = before ++ rest ∧ byteLength before = n := by
  rw [String.Pos.Raw.isValid_ofList]
  constructor
  · rintro ⟨i, hi⟩
    exact ⟨text.take i, text.drop i, (List.take_append_drop i text).symm,
      (byteLength_eq_utf8ByteSize _).trans hi.symm⟩
  · rintro ⟨before, rest, rfl, rfl⟩
    refine ⟨before.length, ?_⟩
    rw [List.take_left]
    exact byteLength_eq_utf8ByteSize before

theorem byteLength_pos_iff {text : List Char} : 0 < byteLength text ↔ text ≠ [] := by
  cases text with
  | nil => simp [byteLength]
  | cons ch text =>
    have hpos := ch.utf8Size_pos
    simp only [byteLength, ne_eq, reduceCtorEq, not_false_eq_true, iff_true]
    omega

/-- What stands between two positions, of which the second is not before the first. -/
def slice? (text : List Char) (first stop : Nat) : Option (List Char) :=
  if first ≤ stop then Text.between? text first stop else none

theorem slice?_append (before inside rest : List Char) :
    slice? (before ++ inside ++ rest) (byteLength before) (byteLength before + byteLength inside) =
      some inside := by
  rw [slice?, if_pos (Nat.le_add_right _ _), Text.between?, List.append_assoc, dropBytes?_append,
    Nat.add_sub_cancel_left]
  exact takeBytes?_append inside rest

/-! ## Words -/

/-- Spaces take one byte each. -/
theorem utf8Size_of_isSpace {ch : Char} (h : isSpace ch = true) : ch.utf8Size = 1 := by
  have hle : ch.toNat ≤ 127 := Nat.le_trans (toNat_le_of_isSpace h) (by decide)
  exact Char.utf8Size_eq_one_iff.2 (UInt32.le_iff_toNat_le.2 hle)

/-- The 64-bit integer that a whole word is the decimal form of, if it is one. -/
def integerOfWord? (word : List Char) : Option Int64 :=
  if (Cursor.splitSign word).2.all Char.isDigit then
    Cursor.integerOf? (Cursor.splitSign word).1 (Cursor.splitSign word).2
  else none

theorem integerOfWord?_append {sign : Option Sign} {digits : List Char}
    (h : ∀ ch ∈ digits, ch.isDigit = true) :
    integerOfWord? (signText sign ++ digits) = Cursor.integerOf? sign digits := by
  have hsplit : Cursor.splitSign (signText sign ++ digits) = (sign, digits) :=
    Cursor.splitSign_append sign fun ch hch => h ch (List.mem_of_mem_head? hch)
  rw [integerOfWord?, hsplit, if_pos (List.all_eq_true.2 h)]

/-- The integer that stands between two positions, if there is a digit behind its sign. -/
def integerBetween? (text : List Char) (start afterSign stop : Nat) : Option (Option Int64) :=
  if afterSign < stop then (slice? text start stop).map integerOfWord? else some none

theorem integerBetween?_append {sign : Option Sign} {digits : List Char} (before rest : List Char)
    (h : ∀ ch ∈ digits, ch.isDigit = true) :
    integerBetween? (before ++ (signText sign ++ digits) ++ rest) (byteLength before)
        (byteLength before + byteLength (signText sign))
        (byteLength before + byteLength (signText sign ++ digits)) =
      some (Cursor.integerOf? sign digits) := by
  rw [integerBetween?, slice?_append, Option.map_some, integerOfWord?_append h, byteLength_append]
  split
  case isTrue => rfl
  case isFalse hnone =>
    have hnil : digits = [] := by
      by_contra hne
      have hpos := byteLength_pos_iff.2 hne
      omega
    rw [hnil]
    rfl

/-! ## Operations on numbers of bytes -/

/-- A cursor that knows its places by the number of bytes before them. -/
structure ByteCursor where
  text : List Char
  position : Nat
  /-- The positions at the beginning of each open scope, innermost first. -/
  saved : List Nat
  nesting : Nat

namespace ByteCursor

def ofText (text : List Char) : ByteCursor where
  text
  position := 0
  saved := []
  nesting := 0

/-- The cursor some bytes further on. -/
def forward (bytes : Nat) (c : ByteCursor) : ByteCursor :=
  { c with position := c.position + bytes }

def beginScope (c : ByteCursor) : ByteCursor :=
  { c with saved := c.position :: c.saved }

def endScope (restore : Bool) (c : ByteCursor) : ByteCursor :=
  match c.saved with
  | position :: outer =>
    { c with position := if restore then position else c.position, saved := outer }
  | [] =>
    { c with position := if restore then 0 else c.position }

def deeper (c : ByteCursor) : ByteCursor :=
  { c with nesting := c.nesting + 1 }

/-- One level less can only be open where one is. -/
def shallower? (c : ByteCursor) : Option ByteCursor :=
  match c.nesting with
  | 0 => none
  | nesting + 1 => some { c with nesting }

/-- What is left to read. There is no answer where the text cannot be cut at the position. -/
def remaining? (c : ByteCursor) : Option (List Char) :=
  Text.dropBytes? c.text c.position

def peek? (c : ByteCursor) : Option (Option Char) :=
  c.remaining?.map List.head?

def advance? (c : ByteCursor) : Option (Option Char × ByteCursor) :=
  c.peek?.map fun
    | some ch => (some ch, c.forward ch.utf8Size)
    | none => (none, c)

def advanceIf? (expected : Char) (c : ByteCursor) : Option (Bool × ByteCursor) :=
  c.peek?.map fun ch? =>
    if ch? = some expected then (true, c.forward expected.utf8Size) else (false, c)

def advanceIfText? (pattern : List Char) (c : ByteCursor) : Option (Bool × ByteCursor) :=
  c.remaining?.map fun rest =>
    if pattern.isPrefixOf rest then (true, c.forward (byteLength pattern)) else (false, c)

theorem position_lt_of_peek? {c : ByteCursor} {ch : Char} (h : c.peek? = some (some ch)) :
    c.position < byteLength c.text := by
  obtain ⟨rest, hrest, hhead⟩ := Option.map_eq_some_iff.1 h
  obtain ⟨before, htext, hbefore⟩ := exists_append_of_dropBytes? hrest
  have hpos : 0 < byteLength rest := byteLength_pos_iff.2 (by rintro rfl; cases hhead)
  rw [htext, byteLength_append, hbefore]
  omega

/-- Goes on as long as characters of a kind come next, by a number of bytes for each. -/
def skipWhile? (kind : Char → Bool) (width : Char → Nat) (hwidth : ∀ ch, 0 < width ch)
    (c : ByteCursor) : Option ByteCursor :=
  match _ : c.peek? with
  | some (some ch) =>
    if kind ch then skipWhile? kind width hwidth (c.forward (width ch)) else some c
  | some none => some c
  | none => none
termination_by byteLength c.text - c.position
decreasing_by
  -- whatever comes next, it is before the end of the text
  have hlt := position_lt_of_peek? ‹c.peek? = some (some ch)›
  have hpos := hwidth ch
  simp only [forward]
  omega

section

variable {kind : Char → Bool} {width : Char → Nat} {hwidth : ∀ ch, 0 < width ch} {c : ByteCursor}

theorem skipWhile?_of_end (h : c.peek? = some none) :
    c.skipWhile? kind width hwidth = some c := by
  rw [skipWhile?]
  split <;> simp_all

theorem skipWhile?_of_next {ch : Char} (h : c.peek? = some (some ch)) :
    c.skipWhile? kind width hwidth =
      if kind ch then (c.forward (width ch)).skipWhile? kind width hwidth else some c := by
  rw [skipWhile?]
  split <;> simp_all

end

/-- Skips spaces, of which each is taken to be one byte. -/
def skipSpaces? (c : ByteCursor) : Option ByteCursor :=
  c.skipWhile? isSpace (fun _ => 1) fun _ => Nat.one_pos

def keyword? (word : List Char) (c : ByteCursor) : Option (Bool × ByteCursor) := do
  let (present, inside) ← c.beginScope.advanceIfText? word
  let whole ← if present then inside.peek?.map fun ch? => !ch?.any isIdentChar else pure false
  pure (whole, inside.endScope (!whole))

def sign? (c : ByteCursor) : Option (Option Sign × ByteCursor) := do
  match (← c.peek?).bind Sign.ofChar? with
  | some sign => c.advance?.map fun (_, c) => (some sign, c)
  | none => pure (none, c)

def integer? (c : ByteCursor) : Option (Option Int64 × ByteCursor) := do
  let start := c.beginScope.position
  let (_, afterSign) ← c.beginScope.sign?
  let afterDigits ← afterSign.skipWhile? Char.isDigit Char.utf8Size Char.utf8Size_pos
  let value ← integerBetween? c.text start afterSign.position afterDigits.position
  pure (value, afterDigits.endScope value.isNone)

end ByteCursor

/-- A cursor in numbers of bytes. -/
def Cursor.bytes (c : Cursor) : ByteCursor where
  text := c.text
  position := c.position
  saved := c.saved.map fun place => byteLength c.text - byteLength place
  nesting := c.nesting

/-! ## The same on both sides -/

namespace Cursor

@[simp] theorem bytes_ofText (text : List Char) :
    (ofText text).bytes = ByteCursor.ofText text := by
  simp [bytes, ByteCursor.ofText, ofText, position]

@[simp] theorem bytes_beginScope (c : Cursor) : c.beginScope.bytes = c.bytes.beginScope := rfl

@[simp] theorem bytes_endScope (restore : Bool) (c : Cursor) :
    (c.endScope restore).bytes = c.bytes.endScope restore := by
  obtain ⟨text, rest, saved, nesting⟩ := c
  cases saved <;> cases restore <;>
    simp [endScope, bytes, ByteCursor.endScope, position]

theorem position_of_append {c : Cursor} {before : List Char} (h : before ++ c.rest = c.text) :
    c.position = byteLength before := by
  rw [position, ← h, byteLength_append]
  omega

/-- What is read between two places is added to the number of bytes. -/
theorem bytes_seek (c : Cursor) {word rest : List Char} (h : c.rest <:+ c.text)
    (hrest : c.rest = word ++ rest) :
    (c.seek rest).bytes = c.bytes.forward (byteLength word) := by
  obtain ⟨before, hbefore⟩ := h
  have hposition : (c.seek rest).position = c.position + byteLength word := by
    simp only [position, seek, ← hbefore, hrest, byteLength_append]
    omega
  simp only [bytes, ByteCursor.forward, hposition]
  rfl

theorem bytes_seek_cons {c : Cursor} {ch : Char} {rest : List Char} (h : c.rest <:+ c.text)
    (hrest : c.rest = ch :: rest) : (c.seek rest).bytes = c.bytes.forward ch.utf8Size :=
  c.bytes_seek h (show c.rest = [ch] ++ rest from hrest)

theorem Reaches.rest_suffix_text {c c' : Cursor} (h : c.Reaches c') (hc : c.rest <:+ c.text) :
    c'.rest <:+ c'.text := by
  obtain ⟨rest, hrest, rfl⟩ := h
  exact hrest.trans hc

theorem reaches_advanceIfText (pattern : List Char) (c : Cursor) :
    c.Reaches (c.advanceIfText pattern).2 := by
  unfold advanceIfText
  split
  · exact ⟨_, List.drop_suffix _ _, rfl⟩
  · exact .refl c

end Cursor

namespace ByteCursor

variable {c : Cursor}

theorem remaining?_bytes (h : c.rest <:+ c.text) : c.bytes.remaining? = some c.rest := by
  obtain ⟨before, hbefore⟩ := h
  show Text.dropBytes? c.text c.position = some c.rest
  rw [Cursor.position_of_append hbefore, ← hbefore]
  exact dropBytes?_append before c.rest

theorem shallower?_bytes {n : Nat} (h : c.nesting = n + 1) :
    c.bytes.shallower? = some c.shallower.bytes := by
  obtain ⟨text, rest, saved, _⟩ := c
  cases h
  rfl

theorem peek?_bytes (h : c.rest <:+ c.text) : c.bytes.peek? = some c.peek := by
  rw [peek?, remaining?_bytes h]
  rfl

theorem advance?_bytes (h : c.rest <:+ c.text) :
    c.bytes.advance? = some (c.advance.1, c.advance.2.bytes) := by
  rw [advance?, peek?_bytes h]
  rcases hrest : c.rest with - | ⟨ch, rest⟩
  · obtain ⟨text, _, saved, nesting⟩ := c
    cases hrest
    rfl
  · rw [show c.peek = some ch by rw [Cursor.peek, hrest]; rfl,
      show c.advance = (some ch, c.seek rest) by rw [Cursor.advance, hrest]; rfl,
      Cursor.bytes_seek_cons h hrest]
    rfl

theorem advanceIf?_bytes (h : c.rest <:+ c.text) (expected : Char) :
    c.bytes.advanceIf? expected =
      some ((c.advanceIf expected).1, (c.advanceIf expected).2.bytes) := by
  rw [advanceIf?, peek?_bytes h, Option.map_some, Cursor.peek, Cursor.advanceIf_eq]
  split
  case isTrue hhead =>
    obtain ⟨rest, hrest⟩ := List.head?_eq_some_iff.1 hhead
    rw [hrest, List.tail_cons, Cursor.bytes_seek_cons h hrest]
  case isFalse => rfl

theorem advanceIfText?_bytes (h : c.rest <:+ c.text) (pattern : List Char) :
    c.bytes.advanceIfText? pattern =
      some ((c.advanceIfText pattern).1, (c.advanceIfText pattern).2.bytes) := by
  rw [advanceIfText?, remaining?_bytes h, Option.map_some, Cursor.advanceIfText]
  split
  case isTrue hprefix =>
    have happ := List.prefix_iff_eq_append.1 (List.isPrefixOf_iff_prefix.1 hprefix)
    rw [← Cursor.seek, c.bytes_seek h happ.symm]
  case isFalse => rfl

/-- A loop over characters of a kind ends behind the last of them, if the number of bytes that it
takes for each is right. -/
theorem skipWhile?_bytes {kind : Char → Bool} {width : Char → Nat} (hpos : ∀ ch, 0 < width ch)
    (hwidth : ∀ ch, kind ch = true → width ch = ch.utf8Size) (h : c.rest <:+ c.text) :
    c.bytes.skipWhile? kind width hpos = some (c.seek (c.rest.dropWhile kind)).bytes := by
  have hpeek := peek?_bytes h
  rw [Cursor.peek] at hpeek
  induction hrest : c.rest generalizing c with
  | nil =>
    rw [hrest] at hpeek
    rw [skipWhile?_of_end hpeek, List.dropWhile_nil, ← hrest]
    rfl
  | cons ch rest ih =>
    rw [hrest] at hpeek
    rw [skipWhile?_of_next hpeek]
    split
    case isTrue hkind =>
      have hnext : (c.seek rest).rest <:+ (c.seek rest).text :=
        (List.suffix_cons ch rest).trans (hrest ▸ h)
      rw [List.dropWhile_cons_of_pos hkind, hwidth ch hkind, ← Cursor.bytes_seek_cons h hrest]
      exact ih hnext (peek?_bytes hnext) rfl
    case isFalse hkind =>
      rw [List.dropWhile_cons_of_neg hkind, ← hrest]
      rfl

/-! ## Words -/

theorem skipSpaces?_bytes (h : c.rest <:+ c.text) :
    c.bytes.skipSpaces? = some c.skipSpaces.bytes :=
  skipWhile?_bytes _ (fun _ hspace => (utf8Size_of_isSpace hspace).symm) h

theorem keyword?_bytes (h : c.rest <:+ c.text) (word : List Char) :
    c.bytes.keyword? word = some ((c.keyword word).1, (c.keyword word).2.bytes) := by
  have hread := advanceIfText?_bytes (c := c.beginScope) h word
  have hinside := (c.beginScope.reaches_advanceIfText word).rest_suffix_text h
  unfold keyword? Cursor.keyword
  rw [← Cursor.bytes_beginScope, hread]
  generalize c.beginScope.advanceIfText word = found at hinside ⊢
  obtain ⟨present, inside⟩ := found
  cases present with
  | true =>
    show ((inside.bytes.peek?.map _).bind _) = _
    rw [peek?_bytes hinside]
    simp
  | false => simp

theorem sign?_bytes (h : c.rest <:+ c.text) :
    c.bytes.sign? = some (c.sign.1, c.sign.2.bytes) := by
  unfold sign? Cursor.sign
  rw [peek?_bytes h]
  simp only [Option.bind_eq_bind, Option.bind_some]
  cases c.peek.bind Sign.ofChar? with
  | none => rfl
  | some sign =>
    simp only [advance?_bytes h]
    rfl

/-- The places before the sign, before the digits and behind them, as positions. -/
theorem integerBetween?_bytes {sign : Option Sign} {digits rest : List Char}
    (h : c.rest <:+ c.text) (hrest : c.rest = signText sign ++ (digits ++ rest))
    (hdigits : ∀ ch ∈ digits, ch.isDigit = true) :
    integerBetween? c.text c.position (c.seek (digits ++ rest)).position (c.seek rest).position =
      some (Cursor.integerOf? sign digits) := by
  obtain ⟨before, hbefore⟩ := h
  have htext : before ++ (signText sign ++ digits) ++ rest = c.text := by simp [← hbefore, hrest]
  have hdigit : (c.seek (digits ++ rest)).position = byteLength (before ++ signText sign) := by
    refine Cursor.position_of_append ?_
    show before ++ signText sign ++ (digits ++ rest) = c.text
    simpa using htext
  have hend : (c.seek rest).position = byteLength (before ++ (signText sign ++ digits)) :=
    Cursor.position_of_append htext
  rw [Cursor.position_of_append hbefore, hdigit, hend, byteLength_append before,
    byteLength_append before, ← htext]
  exact integerBetween?_append before rest hdigits

theorem integer?_bytes (h : c.rest <:+ c.text) :
    c.bytes.integer? = some (c.integer.1, c.integer.2.bytes) := by
  have hsplit := Cursor.signText_append_splitSign c.rest
  have hsign := sign?_bytes (c := c.beginScope) h
  rw [Cursor.sign_eq, Cursor.rest_beginScope] at hsign
  rw [Cursor.integer_eq, Cursor.integerAt]
  generalize (Cursor.splitSign c.rest).1 = sign, (Cursor.splitSign c.rest).2 = tail at *
  -- the loop goes over the digits
  have hloop : (c.beginScope.seek tail).bytes.skipWhile? Char.isDigit Char.utf8Size
      Char.utf8Size_pos = some (c.beginScope.seek (tail.dropWhile Char.isDigit)).bytes :=
    skipWhile?_bytes _ (fun _ _ => rfl) ((hsplit ▸ List.suffix_append _ _).trans h)
  have hrest : c.rest =
      signText sign ++ (tail.takeWhile Char.isDigit ++ tail.dropWhile Char.isDigit) := by
    rw [List.takeWhile_append_dropWhile, ← hsplit]
  have hvalue := integerBetween?_bytes h hrest fun _ => List.mem_takeWhile_imp
  rw [List.takeWhile_append_dropWhile] at hvalue
  unfold integer?
  rw [← Cursor.bytes_beginScope, hsign]
  simp only [Option.bind_eq_bind, Option.bind_some, hloop]
  refine (congrArg (Option.bind · _) hvalue).trans ?_
  rw [Option.bind_some, ← Cursor.bytes_endScope]
  cases Cursor.integerOf? sign (tail.takeWhile Char.isDigit) <;> rfl

end ByteCursor

/-! ## Scopes around rules -/

/-- A rule over such cursors. There is no outcome where a text cannot be cut. -/
def ByteRule (σ ε α : Type) : Type :=
  ByteCursor → σ → Option (Outcome ε α × ByteCursor × σ)

namespace ByteRule

variable {σ τ ε α : Type}

def attempt (rule : ByteRule σ ε α) : ByteRule σ ε α := fun c s => do
  let (outcome, c, s) ← rule c.beginScope s
  pure (outcome, c.endScope (!outcome.isFound), s)

def nested (rule : ByteRule σ ε α) : ByteRule σ ε α := fun c s =>
  if c.nesting < maxNesting then do
    let (outcome, c, s) ← rule.attempt c.deeper s
    pure (outcome, ← c.shallower?, s)
  else pure (.missing, c, s)

variable {rule : Rule σ ε α} {rule? : ByteRule τ ε α} {c : Cursor} {s : σ} {t t' : τ}

theorem attempt_bytes
    (h : rule? c.beginScope.bytes t =
      some ((rule c.beginScope s).1, (rule c.beginScope s).2.1.bytes, t')) :
    rule?.attempt c.bytes t = some ((rule.attempt c s).1, (rule.attempt c s).2.1.bytes, t') := by
  rw [Cursor.bytes_beginScope] at h
  simp only [attempt, h, Rule.attempt, Cursor.bytes_endScope]
  rfl

theorem nested_bytes (hlt : c.nesting < maxNesting)
    (hkeeps : (rule.attempt c.deeper s).2.1.nesting = c.nesting + 1)
    (h : rule? c.deeper.beginScope.bytes t =
      some ((rule c.deeper.beginScope s).1, (rule c.deeper.beginScope s).2.1.bytes, t')) :
    rule?.nested c.bytes t = some ((rule.nested c s).1, (rule.nested c s).2.1.bytes, t') := by
  have hattempt : rule?.attempt c.bytes.deeper t =
      some ((rule.attempt c.deeper s).1, (rule.attempt c.deeper s).2.1.bytes, t') :=
    attempt_bytes h
  have hshallower := ByteCursor.shallower?_bytes hkeeps
  rw [Rule.nested_of_lt rule s hlt, nested, if_pos (show c.bytes.nesting < maxNesting from hlt),
    hattempt]
  simp only [Option.bind_eq_bind, Option.bind_some, hshallower]
  rfl

theorem nested_bytes_of_full (h : maxNesting ≤ c.nesting) :
    rule?.nested c.bytes t = some (.missing, c.bytes, t) :=
  if_neg (Nat.not_lt.2 h)

end ByteRule

end Parley.Formula
