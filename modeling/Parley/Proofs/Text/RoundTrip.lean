import Parley.Text.Utf8

/-!
# Texts read back from their bytes

The bytes of a text are read as that text: no character is replaced. So a text that
comes through whole is the one that was sent.

- `first_of_two`, `first_of_three`, `first_of_four`: what the first byte of a longer
  character leads to.
- `lossyFrom_last`, `lossyFrom_further`: what a further byte of it adds.
- `lossyFrom_utf8EncodeChar`: one character, whatever comes behind it.
- `decodeLossy_encode`: whole texts.
- `decode_encode`: whole texts where no byte may be out of place.
-/

namespace Parley.Text.Utf8

section Bytes

variable {n : Nat} (h : n < 256) (b : UInt8)

include h

theorem toNat_byte : (UInt8.ofNat n).toNat = n :=
  UInt8.toNat_ofNat_of_lt' h

theorem byte_lt_iff : UInt8.ofNat n < b ↔ n < b.toNat := by
  rw [UInt8.lt_iff_toNat_lt, toNat_byte h]

theorem lt_byte_iff : b < UInt8.ofNat n ↔ b.toNat < n := by
  rw [UInt8.lt_iff_toNat_lt, toNat_byte h]

theorem byte_eq_iff : UInt8.ofNat n = b ↔ n = b.toNat := by
  rw [← UInt8.toNat_inj, toNat_byte h]

end Bytes

/-! ## First bytes -/

theorem first_of_one {n : Nat} (h : n < 128) : first (UInt8.ofNat n) = .char (Char.ofNat n) := by
  have hbyte : n < 256 := by omega
  unfold first
  simp only [byte_lt_iff hbyte, toNat_byte hbyte, UInt8.reduceToNat]
  rw [if_pos h]

theorem first_of_two {bits : Nat} (hlow : 2 ≤ bits) (hhigh : bits < 32) :
    first (UInt8.ofNat (bits + 192)) = .partly ⟨1, 0, 0x80, 0xbf, bits⟩ := by
  have hbyte : bits + 192 < 256 := by omega
  unfold first
  simp only [byte_lt_iff hbyte, toNat_byte hbyte, UInt8.reduceToNat]
  rw [if_neg (by omega), if_neg (by omega), if_pos (by omega),
    show (bits + 192) % 32 = bits by omega]

theorem first_of_three {bits : Nat} (h : bits < 16) :
    first (UInt8.ofNat (bits + 224)) =
      .partly
        ⟨1, 1, if bits = 0 then 0xa0 else 0x80, if bits = 13 then 0x9f else 0xbf, bits⟩ := by
  have hbyte : bits + 224 < 256 := by omega
  have hzero : bits + 224 = 224 ↔ bits = 0 := by omega
  have hsurrogate : bits + 224 = 237 ↔ bits = 13 := by omega
  unfold first
  simp only [byte_lt_iff hbyte, byte_eq_iff hbyte, toNat_byte hbyte, UInt8.reduceToNat, hzero,
    hsurrogate]
  rw [if_neg (by omega), if_neg (by omega), if_neg (by omega), if_pos (by omega),
    show (bits + 224) % 16 = bits by omega]

theorem first_of_four {bits : Nat} (h : bits < 5) :
    first (UInt8.ofNat (bits + 240)) =
      .partly
        ⟨1, 2, if bits = 0 then 0x90 else 0x80, if bits = 4 then 0x8f else 0xbf, bits⟩ := by
  have hbyte : bits + 240 < 256 := by omega
  have hzero : bits + 240 = 240 ↔ bits = 0 := by omega
  have hlast : bits + 240 = 244 ↔ bits = 4 := by omega
  unfold first
  simp only [byte_lt_iff hbyte, byte_eq_iff hbyte, toNat_byte hbyte, UInt8.reduceToNat, hzero,
    hlast]
  rw [if_neg (by omega), if_neg (by omega), if_neg (by omega), if_neg (by omega),
    if_pos (by omega), show (bits + 240) % 8 = bits by omega]

/-! ## Reading on -/

theorem lossyFrom_none_cons (b : UInt8) (rest : List UInt8) :
    lossyFrom none (b :: rest) =
      match first b with
      | .char c => c :: lossyFrom none rest
      | .partly p => lossyFrom (some p) rest
      | .invalid => replacement :: lossyFrom none rest :=
  rfl

theorem lossyFrom_some_cons (p : Partial) (b : UInt8) (rest : List UInt8) :
    lossyFrom (some p) (b :: rest) =
      match p.next b with
      | .char c => c :: lossyFrom none rest
      | .partly p => lossyFrom (some p) rest
      | .invalid => replacement :: lossyFrom none (b :: rest) :=
  rfl

theorem decodeFrom_none_cons (index : Nat) (b : UInt8) (rest : List UInt8) :
    decodeFrom index none (b :: rest) =
      match first b with
      | .char c => (decodeFrom (index + 1) none rest).map (c :: ·)
      | .partly p => decodeFrom (index + 1) (some p) rest
      | .invalid => .error (.invalid 1 index) :=
  rfl

theorem decodeFrom_some_cons (index : Nat) (p : Partial) (b : UInt8) (rest : List UInt8) :
    decodeFrom index (some p) (b :: rest) =
      match p.next b with
      | .char c => (decodeFrom (index + 1) none rest).map (c :: ·)
      | .partly p => decodeFrom (index + 1) (some p) rest
      | .invalid => .error (.invalid p.taken (index - p.taken)) :=
  rfl

/-! ## Further bytes -/

section Further

variable {taken more value bits : Nat} {low high : UInt8} (hbits : bits < 64)
  (hlow : low.toNat ≤ bits + 128) (hhigh : bits + 128 ≤ high.toNat) (rest : List UInt8)

include hbits hlow hhigh

/-- A further byte within its bounds adds six bits. -/
theorem next_eq :
    (⟨taken, more, low, high, value⟩ : Partial).next (UInt8.ofNat (bits + 128)) =
      match more with
      | 0 => .char (Char.ofNat (value * 64 + bits))
      | more + 1 => .partly ⟨taken + 1, more, 0x80, 0xbf, value * 64 + bits⟩ := by
  have hbyte : bits + 128 < 256 := by omega
  have hin : ¬ (decide (UInt8.ofNat (bits + 128) < low) ||
      decide (high < UInt8.ofNat (bits + 128))) = true := by
    simp only [Bool.or_eq_true, decide_eq_true_eq, byte_lt_iff hbyte, lt_byte_iff hbyte]
    omega
  have hbits : (bits + 128) % 64 = bits := by omega
  unfold Partial.next
  rw [if_neg hin]
  cases more with
  | zero => simp only [toNat_byte hbyte, hbits]
  | succ more => simp only [toNat_byte hbyte, hbits]

theorem lossyFrom_last :
    lossyFrom (some ⟨taken, 0, low, high, value⟩) (UInt8.ofNat (bits + 128) :: rest) =
      Char.ofNat (value * 64 + bits) :: lossyFrom none rest := by
  rw [lossyFrom_some_cons, next_eq hbits hlow hhigh]

theorem lossyFrom_further :
    lossyFrom (some ⟨taken, more + 1, low, high, value⟩) (UInt8.ofNat (bits + 128) :: rest) =
      lossyFrom (some ⟨taken + 1, more, 0x80, 0xbf, value * 64 + bits⟩) rest := by
  rw [lossyFrom_some_cons, next_eq hbits hlow hhigh]

end Further

theorem lossyFrom_partly {b : UInt8} {p : Partial} (h : first b = .partly p)
    (rest : List UInt8) : lossyFrom none (b :: rest) = lossyFrom (some p) rest := by
  rw [lossyFrom_none_cons, h]

/-! ## Whole texts -/

/-- The bytes of a character are read as that character. -/
theorem lossyFrom_utf8EncodeChar (c : Char) (rest : List UInt8) :
    lossyFrom none (String.utf8EncodeChar c ++ rest) = c :: lossyFrom none rest := by
  -- The bounds on the second byte leave room for all that is neither overlong nor a surrogate.
  have hvalid : c.val.toNat < 0xd800 ∨ 0xdfff < c.val.toNat ∧ c.val.toNat < 0x110000 := c.valid
  have hc : Char.ofNat c.val.toNat = c := Char.ofNat_toNat c
  unfold String.utf8EncodeChar
  generalize c.val.toNat = n at hvalid hc ⊢
  dsimp only
  split
  case isTrue =>
    rw [List.singleton_append, lossyFrom_none_cons, first_of_one (by omega), hc]
  case isFalse =>
    simp only [apply_ite (· ++ rest), List.cons_append, List.nil_append]
    split
    case isTrue =>
      rw [lossyFrom_partly (first_of_two (by omega) (by omega)),
        lossyFrom_last (by omega) (by simp) (by simp; omega),
        show n / 64 % 32 * 64 + n % 64 = n by omega, hc]
    case isFalse =>
      split
      case isTrue =>
        rw [lossyFrom_partly (first_of_three (by omega)),
          lossyFrom_further (by omega) (by split <;> simp; omega) (by split <;> simp <;> omega),
          lossyFrom_last (by omega) (by simp) (by simp; omega),
          show (n / 4096 % 16 * 64 + n / 64 % 64) * 64 + n % 64 = n by omega, hc]
      case isFalse =>
        rw [lossyFrom_partly (first_of_four (by omega)),
          lossyFrom_further (by omega) (by split <;> simp; omega) (by split <;> simp <;> omega),
          lossyFrom_further (by omega) (by simp) (by simp; omega),
          lossyFrom_last (by omega) (by simp) (by simp; omega),
          show ((n / 262144 % 8 * 64 + n / 4096 % 64) * 64 + n / 64 % 64) * 64 + n % 64 = n by
            omega, hc]

/-- A text is read back from its bytes. -/
theorem decodeLossy_encode (text : String) : decodeLossy (encode text) = text := by
  have hchars : ∀ chars : List Char,
      lossyFrom none (chars.flatMap String.utf8EncodeChar) = chars := by
    intro chars
    induction chars with
    | nil => rfl
    | cons c chars ih => rw [List.flatMap_cons, lossyFrom_utf8EncodeChar, ih]
  rw [decodeLossy, encode, hchars, String.ofList_toList]

/-! ### Without replacements -/

section Further

variable {index taken more value bits : Nat} {low high : UInt8} (hbits : bits < 64)
  (hlow : low.toNat ≤ bits + 128) (hhigh : bits + 128 ≤ high.toNat) (rest : List UInt8)

include hbits hlow hhigh

theorem decodeFrom_last :
    decodeFrom index (some ⟨taken, 0, low, high, value⟩) (UInt8.ofNat (bits + 128) :: rest) =
      (decodeFrom (index + 1) none rest).map (Char.ofNat (value * 64 + bits) :: ·) := by
  rw [decodeFrom_some_cons, next_eq hbits hlow hhigh]

theorem decodeFrom_further :
    decodeFrom index (some ⟨taken, more + 1, low, high, value⟩)
        (UInt8.ofNat (bits + 128) :: rest) =
      decodeFrom (index + 1) (some ⟨taken + 1, more, 0x80, 0xbf, value * 64 + bits⟩) rest := by
  rw [decodeFrom_some_cons, next_eq hbits hlow hhigh]

end Further

theorem decodeFrom_partly {b : UInt8} {p : Partial} (h : first b = .partly p) (index : Nat)
    (rest : List UInt8) :
    decodeFrom index none (b :: rest) = decodeFrom (index + 1) (some p) rest := by
  rw [decodeFrom_none_cons, h]

/-- The bytes of a character are all in place. -/
theorem exists_decodeFrom_utf8EncodeChar (c : Char) (index : Nat) (rest : List UInt8) :
    ∃ index', decodeFrom index none (String.utf8EncodeChar c ++ rest) =
      (decodeFrom index' none rest).map (c :: ·) := by
  have hvalid : c.val.toNat < 0xd800 ∨ 0xdfff < c.val.toNat ∧ c.val.toNat < 0x110000 := c.valid
  have hc : Char.ofNat c.val.toNat = c := Char.ofNat_toNat c
  unfold String.utf8EncodeChar
  generalize c.val.toNat = n at hvalid hc ⊢
  dsimp only
  split
  case isTrue =>
    refine ⟨index + 1, ?_⟩
    rw [List.singleton_append, decodeFrom_none_cons, first_of_one (by omega), hc]
  case isFalse =>
    simp only [apply_ite (· ++ rest), List.cons_append, List.nil_append]
    split
    case isTrue =>
      refine ⟨index + 1 + 1, ?_⟩
      rw [decodeFrom_partly (first_of_two (by omega) (by omega)),
        decodeFrom_last (by omega) (by simp) (by simp; omega),
        show n / 64 % 32 * 64 + n % 64 = n by omega, hc]
    case isFalse =>
      split
      case isTrue =>
        refine ⟨index + 1 + 1 + 1, ?_⟩
        rw [decodeFrom_partly (first_of_three (by omega)),
          decodeFrom_further (by omega) (by split <;> simp; omega) (by split <;> simp <;> omega),
          decodeFrom_last (by omega) (by simp) (by simp; omega),
          show (n / 4096 % 16 * 64 + n / 64 % 64) * 64 + n % 64 = n by omega, hc]
      case isFalse =>
        refine ⟨index + 1 + 1 + 1 + 1, ?_⟩
        rw [decodeFrom_partly (first_of_four (by omega)),
          decodeFrom_further (by omega) (by split <;> simp; omega) (by split <;> simp <;> omega),
          decodeFrom_further (by omega) (by simp) (by simp; omega),
          decodeFrom_last (by omega) (by simp) (by simp; omega),
          show ((n / 262144 % 8 * 64 + n / 4096 % 64) * 64 + n / 64 % 64) * 64 + n % 64 = n by
            omega, hc]

/-- A text is read back where its bytes have to be a text. -/
theorem decode_encode (text : String) : decode (encode text) = .ok text := by
  have hchars : ∀ (chars : List Char) (index : Nat),
      decodeFrom index none (chars.flatMap String.utf8EncodeChar) = .ok chars := by
    intro chars
    induction chars with
    | nil => exact fun _ => rfl
    | cons c chars ih =>
      intro index
      obtain ⟨index', hfirst⟩ :=
        exists_decodeFrom_utf8EncodeChar c index (chars.flatMap String.utf8EncodeChar)
      rw [List.flatMap_cons, hfirst, ih]
      rfl
  rw [decode, encode, hchars]
  exact congrArg Except.ok String.ofList_toList

/-- Only the empty text has no bytes. -/
theorem encode_ne_nil {text : String} (h : text ≠ "") : encode text ≠ [] := by
  intro hnil
  refine h ?_
  rw [← decodeLossy_encode text, hnil]
  rfl

/-- A character that was begun shows at least as its replacement. -/
theorem lossyFrom_some_ne_nil (p : Partial) (bytes : List UInt8) :
    lossyFrom (some p) bytes ≠ [] := by
  induction bytes generalizing p with
  | nil => exact List.cons_ne_nil _ _
  | cons b bytes ih =>
    rw [lossyFrom_some_cons]
    rcases p.next b with c | p' | _
    · exact List.cons_ne_nil _ _
    · exact ih p'
    · exact List.cons_ne_nil _ _

/-- No byte is read as nothing. -/
theorem decodeLossy_ne_empty {bytes : List UInt8} (h : bytes ≠ []) : decodeLossy bytes ≠ "" := by
  have hchars : lossyFrom none bytes ≠ [] := by
    obtain ⟨b, bytes, rfl⟩ := List.exists_cons_of_ne_nil h
    rw [lossyFrom_none_cons]
    rcases first b with c | p | _
    · exact List.cons_ne_nil _ _
    · exact lossyFrom_some_ne_nil p bytes
    · exact List.cons_ne_nil _ _
  intro hempty
  refine hchars ?_
  rw [← String.toList_ofList (l := lossyFrom none bytes), ← decodeLossy, hempty]
  rfl

end Parley.Text.Utf8
