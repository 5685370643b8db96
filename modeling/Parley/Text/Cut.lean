/-!
# Cuts

Parts of a text by their positions, which count the bytes that the characters take in
UTF-8. There is no part that begins or ends inside a character.

- `dropBytes?`, `takeBytes?`: what stands behind a position, and before it.
- `between?`: what stands between two positions.
-/

namespace Parley.Text

/-- What is left of a text behind its first bytes. -/
def dropBytes? : List Char → Nat → Option (List Char)
  | text, 0 => some text
  | [], _ + 1 => none
  | c :: rest, n + 1 =>
    if c.utf8Size ≤ n + 1 then dropBytes? rest (n + 1 - c.utf8Size) else none

/-- The first bytes of a text. -/
def takeBytes? : List Char → Nat → Option (List Char)
  | _, 0 => some []
  | [], _ + 1 => none
  | c :: rest, n + 1 =>
    if c.utf8Size ≤ n + 1 then (takeBytes? rest (n + 1 - c.utf8Size)).map (c :: ·)
    else none

/-- The part of a text from one position to another. -/
def between? (text : List Char) (first stop : Nat) : Option (List Char) :=
  (dropBytes? text first).bind fun rest => takeBytes? rest (stop - first)

/-- A cut splits a text in two and loses nothing. -/
theorem takeBytes?_append_dropBytes? {text before behind : List Char} {n : Nat}
    (h : takeBytes? text n = some before) (h' : dropBytes? text n = some behind) :
    before ++ behind = text := by
  induction text generalizing before n with
  | nil =>
    cases n with
    | zero => simp_all [takeBytes?, dropBytes?]
    | succ n => simp [takeBytes?] at h
  | cons c rest ih =>
    cases n with
    | zero => simp_all [takeBytes?, dropBytes?]
    | succ n =>
      by_cases hc : c.utf8Size ≤ n + 1
      · simp only [takeBytes?, dropBytes?, hc, if_true, Option.map_eq_some_iff] at h h'
        obtain ⟨first, hfirst, rfl⟩ := h
        simp [ih hfirst h']
      · simp [takeBytes?, hc] at h

end Parley.Text
