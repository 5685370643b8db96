/-!
# Cursors

A cursor is a place in a text from which characters are read, together with a
stack of places to return to. Whatever may fail opens a scope first and closes it
afterwards, going back to where the scope began if it failed.

- `Cursor.beginScope`, `Cursor.endScope`: the stack of saved places.
- `Cursor.peek`, `Cursor.advance`, `Cursor.advanceIf`, `Cursor.advanceIfText`,
  `Cursor.skipSpaces`: reading.
- `Cursor.position`: how many bytes of text lie before the cursor.

A place is represented by the text that is left from there on, so that every
place lies between two characters.
-/

namespace Parley.Formula

/-- The number of nested rules that may be open at a time. -/
def maxNesting : Nat := 128

/-- The number of bytes that characters take in UTF-8. -/
def byteLength : List Char → Nat
  | [] => 0
  | c :: chars => c.utf8Size + byteLength chars

/-- The characters that may stand anywhere between the words of a formula: space,
and the controls from tab to carriage return. -/
def isSpace (c : Char) : Bool :=
  c == ' ' || (9 ≤ c.toNat && c.toNat ≤ 13)

/-- A place in a text, the places to return to, and the depth of nested rules. -/
structure Cursor where
  /-- The whole text. -/
  text : List Char
  /-- What is left to read. -/
  rest : List Char
  /-- What was left at the beginning of each open scope, innermost first. -/
  saved : List (List Char)
  /-- How many nested rules are open. -/
  nesting : Nat

namespace Cursor

/-- The cursor at the beginning of a text. -/
def ofText (text : List Char) : Cursor where
  text
  rest := text
  saved := []
  nesting := 0

/-- The number of bytes before the cursor. -/
def position (c : Cursor) : Nat :=
  byteLength c.text - byteLength c.rest

/-- The number of open scopes. -/
def depth (c : Cursor) : Nat :=
  c.saved.length

def isAtEnd (c : Cursor) : Bool :=
  c.rest.isEmpty

/-! ## Scopes -/

/-- Remembers the present place. -/
def beginScope (c : Cursor) : Cursor :=
  { c with saved := c.rest :: c.saved }

/-- Closes the innermost scope, going back to its beginning if asked to. Going
back without an open scope leads to the beginning of the text. -/
def endScope (restore : Bool) (c : Cursor) : Cursor :=
  match c.saved with
  | place :: outer =>
    { c with rest := if restore then place else c.rest, saved := outer }
  | [] =>
    { c with rest := if restore then c.text else c.rest }

/-! ## Reading -/

/-- The next character. -/
def peek (c : Cursor) : Option Char :=
  c.rest.head?

/-- Takes the next character, if there is one. -/
def advance (c : Cursor) : Option Char × Cursor :=
  (c.rest.head?, { c with rest := c.rest.tail })

/-- Takes the next character if it is the one expected. -/
def advanceIf (expected : Char) (c : Cursor) : Bool × Cursor :=
  if c.peek = some expected then (true, { c with rest := c.rest.tail }) else (false, c)

/-- Takes a whole pattern if the text goes on with it. -/
def advanceIfText (pattern : List Char) (c : Cursor) : Bool × Cursor :=
  if pattern.isPrefixOf c.rest then (true, { c with rest := c.rest.drop pattern.length })
  else (false, c)

def skipSpaces (c : Cursor) : Cursor :=
  { c with rest := c.rest.dropWhile isSpace }

/-! ## Small laws -/

/-- A scope that is closed without going back changes nothing else. -/
theorem endScope_beginScope_keep (c : Cursor) : c.beginScope.endScope false = c := by
  simp [beginScope, endScope]

/-- Going back undoes any reading inside the scope. -/
theorem endScope_restore (c : Cursor) (rest : List Char) :
    ({ c.beginScope with rest } : Cursor).endScope true = c := by
  simp [beginScope, endScope]

@[simp] theorem skipSpaces_skipSpaces (c : Cursor) : c.skipSpaces.skipSpaces = c.skipSpaces := by
  have h : ∀ l : List Char, (l.dropWhile isSpace).dropWhile isSpace = l.dropWhile isSpace := by
    intro l
    induction l with
    | nil => rfl
    | cons a l ih => by_cases ha : isSpace a <;> simp [ha, ih]
  simp [skipSpaces, h]

end Cursor

end Parley.Formula
