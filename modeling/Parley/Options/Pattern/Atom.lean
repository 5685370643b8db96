import Parley.Options.Pattern.Switches

/-!
# Atoms of patterns

The smallest parts of a pattern: characters, written as they are or behind a backslash,
and what a backslash and a letter stand for.

- `Atom`: a smallest part.
- `readEscape`: reads what stands behind a backslash.
- `Atom.isAllowed`, `Atom.isAllowedInSet`: where it may stand.
-/

namespace Parley.Options.Pattern

/-- A smallest part of a pattern. -/
inductive Atom where
  | character (c : Char)
  /-- A character by two hexadecimal digits, which may also stand for a byte. -/
  | byte (c : Char)
  /-- Digits, blanks or word characters, or all but those. -/
  | shorthand (opposite : Bool)
  /-- Any character. -/
  | dot
  /-- The beginning or the end of the text or of a line. -/
  | edge
  /-- The beginning or the end of a word, or anywhere else. -/
  | wordEdge

/-! ## Escapes -/

/-- The value of a hexadecimal digit. -/
def hexDigit? (c : Char) : Option Nat :=
  if c.isDigit then some (c.toNat - '0'.toNat)
  else if 'a' ≤ c ∧ c ≤ 'f' then some (c.toNat - 'a'.toNat + 10)
  else if 'A' ≤ c ∧ c ≤ 'F' then some (c.toNat - 'A'.toNat + 10)
  else none

/-- Reads hexadecimal digits, after a value. -/
def readHex (s : Switches) :
    (digits : Nat) → (value : Nat) → List Char → Option (Nat × List Char)
  | 0, value, text => some (value, text)
  | _ + 1, _, [] => none
  | digits + 1, value, c :: rest =>
    match hexDigit? c with
    | some digit => readHex s digits (16 * value + digit) (s.skip rest)
    | none => none

/-- Reads a character by its number. -/
def readNumbered (s : Switches) (digits : Nat) (text : List Char) : Option (Char × List Char) :=
  match readHex s digits 0 (s.skip text) with
  | some (n, rest) => if n.isValidChar then some (Char.ofNat n, rest) else none
  | none => none

/-- Reads what stands behind a backslash. Digits would stand for what a group has
matched, which no pattern can ask for. -/
def readEscape (s : Switches) : List Char → Option (Atom × List Char)
  | [] => none
  | c :: rest =>
    match c with
    | 'x' => (readNumbered s 2 rest).map fun (c, rest) => (.byte c, rest)
    | 'u' => (readNumbered s 4 rest).map fun (c, rest) => (.character c, rest)
    | 'U' => (readNumbered s 8 rest).map fun (c, rest) => (.character c, rest)
    | 'd' | 's' | 'w' => some (.shorthand false, rest)
    | 'D' | 'S' | 'W' => some (.shorthand true, rest)
    | 'a' => some (.character '\x07', rest)
    | 'f' => some (.character '\x0c', rest)
    | 't' => some (.character '\t', rest)
    | 'n' => some (.character '\n', rest)
    | 'r' => some (.character '\r', rest)
    | 'v' => some (.character '\x0b', rest)
    | 'A' | 'z' => some (.edge, rest)
    | 'b' | 'B' | '<' | '>' => some (.wordEdge, rest)
    | c => if c.toNat < 0x80 && !c.isAlphanum then some (.character c, rest) else none

/-! ## Where atoms may stand -/

namespace Atom

/-- The character that an atom is. -/
def character? : Atom → Option Char
  | character c => some c
  | byte c => some c
  | _ => none

/-- Whether an atom may stand by itself. What is matched byte by byte has to remain
text; word edges are known for bytes only. -/
def isAllowed (s : Switches) : Atom → Bool
  | character _ => s.allowsCharacter
  | byte c => s.allowsCharacter && (s.characters || c.toNat < 0x80)
  | shorthand opposite => s.allowsClass opposite
  | dot => s.characters
  | edge => true
  | wordEdge => !s.characters

/-- Whether an atom may stand in a set. -/
def isAllowedInSet (s : Switches) : Atom → Bool
  | character c => s.allowsCharacter && (s.characters || c.toNat < 0x80)
  | byte c => s.allowsCharacter && (s.characters || c.toNat < 0x80)
  | shorthand opposite => s.allowsClass opposite
  | _ => false

end Atom

end Parley.Options.Pattern
