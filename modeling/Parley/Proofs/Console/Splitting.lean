import Parley.Console.Lines
import Parley.Proofs.Text.RoundTrip

/-!
# The lines of a text

What a console reads from the bytes of a text are the lines of the text. The bytes of its other
characters are never taken for line ends.

- `linesOf`: the lines of a text, from its pieces between line feeds.
- `splitLines_encode`: the bytes of a text are cut into the bytes of its lines.
- `splitLines_append`: a new line begins behind every line feed.
- `of_mem_linesOf`: what stands in a line.
-/

namespace Parley.Text.Utf8

theorem toNat_mod (n : Nat) : (UInt8.ofNat n).toNat = n % 256 := rfl

/-- Only characters of one byte have a byte below those of longer characters. -/
theorem of_mem_utf8EncodeChar {c : Char} {b : UInt8} (h : b ∈ String.utf8EncodeChar c) :
    b.toNat = c.toNat ∨ 128 ≤ b.toNat := by
  unfold String.utf8EncodeChar at h
  dsimp only at h
  split at h
  case isTrue hlt =>
    rw [List.mem_singleton.1 h]
    exact .inl (toNat_byte (by omega))
  case isFalse =>
    refine .inr ?_
    split at h
    · simp only [List.mem_cons, List.not_mem_nil, or_false] at h
      obtain rfl | rfl := h <;> rw [toNat_mod] <;> omega
    · split at h
      · simp only [List.mem_cons, List.not_mem_nil, or_false] at h
        obtain rfl | rfl | rfl := h <;> rw [toNat_mod] <;> omega
      · simp only [List.mem_cons, List.not_mem_nil, or_false] at h
        obtain rfl | rfl | rfl | rfl := h <;> rw [toNat_mod] <;> omega

theorem utf8EncodeChar_ne_nil (c : Char) : String.utf8EncodeChar c ≠ [] := by
  unfold String.utf8EncodeChar
  dsimp only
  repeat' split
  all_goals exact List.cons_ne_nil _ _

end Parley.Text.Utf8

namespace Parley.Console

open Wire (Bytes)
open Text.Utf8

/-! ## Lines -/

/-- A piece that stands before a line feed, without a carriage return at its end. -/
def dropReturn (piece : List Char) : List Char :=
  if piece.getLast? = some '\r' then piece.dropLast else piece

/-- The lines that the pieces between line feeds make. What stands behind the last line feed is
one too, unless there is nothing. -/
def ofPieces : List (List Char) → List (List Char)
  | [] => []
  | [last] => if last = [] then [] else [last]
  | piece :: pieces => dropReturn piece :: ofPieces pieces

/-- The lines of a text. -/
def linesOf (text : String) : List String :=
  (ofPieces (text.toList.splitOn '\n')).map String.ofList

/-- Puts a character in front of the first line. -/
def extendLine (c : Char) : List (List Char) → List (List Char)
  | [] => [[c]]
  | line :: lines => (c :: line) :: lines

theorem ofPieces_cons (piece : List Char) {pieces : List (List Char)} (h : pieces ≠ []) :
    ofPieces (piece :: pieces) = dropReturn piece :: ofPieces pieces := by
  obtain ⟨next, rest, rfl⟩ := List.exists_cons_of_ne_nil h
  rfl

theorem dropReturn_cons_cons (c d : Char) (piece : List Char) :
    dropReturn (c :: d :: piece) = c :: dropReturn (d :: piece) := by
  unfold dropReturn
  rw [List.getLast?_cons_cons, List.dropLast_cons_cons]
  split <;> rfl

/-- The lines of a text by its first character. -/
theorem ofPieces_splitOn_cons (c : Char) (chars : List Char) :
    ofPieces ((c :: chars).splitOn '\n') =
      if c = '\n' then [] :: ofPieces (chars.splitOn '\n')
      else if c = '\r' ∧ chars.head? = some '\n' then ofPieces (chars.splitOn '\n')
      else extendLine c (ofPieces (chars.splitOn '\n')) := by
  have hne := List.splitOn_ne_nil '\n'
  rw [List.splitOn_cons_eq_if_modifyHead]
  simp only [beq_iff_eq]
  split
  case isTrue => exact ofPieces_cons [] (hne chars)
  case isFalse hc =>
    -- Whether the piece goes on decides whether a carriage return stands at its end.
    cases chars with
    | nil => simp [ofPieces, extendLine]
    | cons d chars =>
      rw [List.splitOn_cons_eq_if_modifyHead]
      simp only [beq_iff_eq, List.head?_cons, Option.some.injEq]
      split
      case isTrue hd =>
        rw [List.modifyHead_cons, ofPieces_cons _ (hne chars), ofPieces_cons _ (hne chars)]
        by_cases hreturn : c = '\r'
        · simp [dropReturn, hreturn, hd]
        · simp [dropReturn, hreturn, extendLine]
      case isFalse =>
        obtain ⟨first, rest, hpieces⟩ := List.exists_cons_of_ne_nil (hne chars)
        rw [hpieces, List.modifyHead_cons, List.modifyHead_cons, if_neg (by simp_all)]
        cases rest with
        | nil => simp [ofPieces, extendLine]
        | cons piece rest =>
          rw [ofPieces_cons _ (List.cons_ne_nil _ _), ofPieces_cons _ (List.cons_ne_nil _ _),
            dropReturn_cons_cons]
          rfl

/-- A line has characters of the text, and no line feed. -/
theorem of_mem_ofPieces {chars line : List Char} (h : line ∈ ofPieces (chars.splitOn '\n')) :
    ∀ c ∈ line, c ∈ chars ∧ c ≠ '\n' := by
  induction chars generalizing line with
  | nil => cases h
  | cons d chars ih =>
    have hlater : ∀ line ∈ ofPieces (chars.splitOn '\n'), ∀ c ∈ line,
        c ∈ d :: chars ∧ c ≠ '\n' :=
      fun line hline c hc => (ih hline c hc).imp_left (List.mem_cons_of_mem d)
    rw [ofPieces_splitOn_cons] at h
    split at h
    case isTrue =>
      obtain rfl | h := List.mem_cons.1 h
      · exact List.forall_mem_nil _
      · exact hlater line h
    case isFalse hd =>
      split at h
      case isTrue => exact hlater line h
      case isFalse =>
        have hfirst : d ∈ d :: chars ∧ d ≠ '\n' := ⟨List.mem_cons_self, hd⟩
        rcases hlines : ofPieces (chars.splitOn '\n') with _ | ⟨first, lines⟩ <;>
          rw [hlines] at h hlater
        · obtain rfl := List.mem_singleton.1 h
          exact List.forall_mem_singleton.2 hfirst
        · obtain rfl | h := List.mem_cons.1 h
          · exact List.forall_mem_cons.2 ⟨hfirst, hlater first List.mem_cons_self⟩
          · exact hlater line (List.mem_cons_of_mem first h)

theorem of_mem_linesOf {text line : String} (h : line ∈ linesOf text) :
    ∀ c ∈ line.toList, c ∈ text.toList ∧ c ≠ '\n' := by
  obtain ⟨chars, hchars, rfl⟩ := List.mem_map.1 h
  rw [String.toList_ofList]
  exact of_mem_ofPieces hchars

/-! ## Lines as bytes -/

/-- Bytes that end no line go in front of the first line. -/
theorem splitLines_append_of_plain {bytes : Bytes}
    (h : ∀ b ∈ bytes, b ≠ lineFeed ∧ b ≠ carriageReturn) (rest : Bytes) :
    splitLines (bytes ++ rest) = bytes.foldr extendFirst (splitLines rest) := by
  induction bytes with
  | nil => rfl
  | cons b bytes ih =>
    obtain ⟨⟨hfeed, hreturn⟩, hbytes⟩ := List.forall_mem_cons.1 h
    rw [List.cons_append, splitLines, if_neg hfeed, if_neg (fun h => hreturn h.1), ih hbytes]
    rfl

theorem foldr_extendFirst {bytes : Bytes} (h : bytes ≠ []) :
    bytes.foldr extendFirst [] = [bytes] := by
  induction bytes with
  | nil => exact absurd rfl h
  | cons b bytes ih =>
    cases bytes with
    | nil => rfl
    | cons b' bytes => rw [List.foldr_cons, ih (List.cons_ne_nil _ _)]; rfl

theorem foldr_extendFirst_cons (bytes line : Bytes) (lines : List Bytes) :
    bytes.foldr extendFirst (line :: lines) = (bytes ++ line) :: lines := by
  induction bytes with
  | nil => rfl
  | cons b bytes ih => rw [List.foldr_cons, ih]; rfl

theorem foldr_extendFirst_map (c : Char) (lines : List (List Char)) :
    (String.utf8EncodeChar c).foldr extendFirst
        (lines.map fun line => line.flatMap String.utf8EncodeChar) =
      (extendLine c lines).map fun line => line.flatMap String.utf8EncodeChar := by
  cases lines with
  | nil =>
    rw [List.map_nil, foldr_extendFirst (utf8EncodeChar_ne_nil c)]
    simp [extendLine]
  | cons line lines => rw [List.map_cons, foldr_extendFirst_cons]; rfl

theorem eq_of_mem_utf8EncodeChar {c d : Char} {b : UInt8} (h : b ∈ String.utf8EncodeChar c)
    (hb : b.toNat = d.toNat) (hd : d.toNat < 128) : c = d := by
  obtain hc | hc := of_mem_utf8EncodeChar h
  · exact Char.toNat_inj.1 (hc.symm.trans hb)
  · omega

theorem head?_flatMap_utf8EncodeChar (chars : List Char) :
    (chars.flatMap String.utf8EncodeChar).head? = some lineFeed ↔ chars.head? = some '\n' := by
  cases chars with
  | nil => simp
  | cons c chars =>
    obtain ⟨b, bytes, hbytes⟩ := List.exists_cons_of_ne_nil (utf8EncodeChar_ne_nil c)
    rw [List.flatMap_cons, hbytes]
    simp only [List.cons_append, List.head?_cons, Option.some.injEq]
    constructor
    · rintro rfl
      exact eq_of_mem_utf8EncodeChar (d := '\n') (hbytes ▸ List.mem_cons_self) rfl (by decide)
    · rintro rfl
      exact (List.cons.inj hbytes).1.symm

/-- The bytes of characters are cut where the characters are. -/
theorem splitLines_flatMap (chars : List Char) :
    splitLines (chars.flatMap String.utf8EncodeChar) =
      (ofPieces (chars.splitOn '\n')).map fun line => line.flatMap String.utf8EncodeChar := by
  induction chars with
  | nil => rfl
  | cons c chars ih =>
    rw [List.flatMap_cons, ofPieces_splitOn_cons]
    by_cases hfeed : c = '\n'
    case pos =>
      subst hfeed
      show splitLines (lineFeed :: chars.flatMap String.utf8EncodeChar) = _
      rw [splitLines, if_pos rfl, if_pos rfl, ih]
      rfl
    case neg =>
      rw [if_neg hfeed]
      by_cases hreturn : c = '\r' ∧ chars.head? = some '\n'
      case pos =>
        obtain ⟨rfl, hhead⟩ := hreturn
        show splitLines (carriageReturn :: chars.flatMap String.utf8EncodeChar) = _
        rw [splitLines, if_neg (by decide),
          if_pos ⟨rfl, (head?_flatMap_utf8EncodeChar chars).2 hhead⟩, if_pos ⟨rfl, hhead⟩, ih]
      case neg =>
        rw [if_neg hreturn, ← foldr_extendFirst_map, ← ih]
        by_cases hc : c = '\r'
        case pos =>
          subst hc
          show splitLines (carriageReturn :: chars.flatMap String.utf8EncodeChar) = _
          rw [splitLines, if_neg (by decide), if_neg fun h =>
            hreturn ⟨rfl, (head?_flatMap_utf8EncodeChar chars).1 h.2⟩]
          rfl
        case neg =>
          refine splitLines_append_of_plain (fun b hb => ⟨?_, ?_⟩) _
          · rintro rfl
            exact hfeed (eq_of_mem_utf8EncodeChar (d := '\n') hb rfl (by decide))
          · rintro rfl
            exact hc (eq_of_mem_utf8EncodeChar (d := '\r') hb rfl (by decide))

/-- The bytes of a text are cut into the bytes of its lines. -/
theorem splitLines_encode (text : String) :
    splitLines (encode text) = (linesOf text).map encode := by
  rw [encode, splitLines_flatMap, linesOf, List.map_map]
  refine List.map_congr_left fun line _ => ?_
  rw [Function.comp_apply, encode, String.toList_ofList]

/-! ## Behind a line feed -/

theorem splitLines_ne_nil {bytes : Bytes} (h : bytes ≠ []) : splitLines bytes ≠ [] := by
  induction bytes with
  | nil => exact absurd rfl h
  | cons b bytes ih =>
    rw [splitLines]
    split
    case isTrue => exact List.cons_ne_nil _ _
    case isFalse =>
      split
      case isTrue hreturn =>
        refine ih ?_
        rintro rfl
        cases hreturn.2
      case isFalse => cases splitLines bytes <;> exact List.cons_ne_nil _ _

/-- A new line begins behind every line feed. -/
theorem splitLines_append {bytes : Bytes} (h : bytes.getLast? = some lineFeed) (rest : Bytes) :
    splitLines (bytes ++ rest) = splitLines bytes ++ splitLines rest := by
  induction bytes with
  | nil => cases h
  | cons b bytes ih =>
    cases bytes with
    | nil =>
      obtain rfl : b = lineFeed := Option.some.inj h
      rfl
    | cons b' bytes =>
      rw [List.getLast?_cons_cons] at h
      have hlater := ih h
      obtain ⟨line, lines, hlines⟩ :=
        List.exists_cons_of_ne_nil (splitLines_ne_nil (List.cons_ne_nil b' bytes))
      have hhead : (b' :: bytes ++ rest).head? = (b' :: bytes).head? := rfl
      rw [List.cons_append, splitLines, splitLines, hhead, hlater, hlines]
      split
      case isTrue => rfl
      case isFalse => split <;> rfl

end Parley.Console
