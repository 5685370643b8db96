import Parley.Text.Blank

/-!
# Switches of patterns

How the letters in `(?…)` change the reading of what stands behind them. Only those
are kept that bear on whether a pattern is well-formed.

- `Switches.apply`: switches letters on and off.
- `Switches.skip`: leaves out what does not count.
-/

namespace Parley.Options.Pattern

/-- What is switched on. -/
structure Switches where
  /-- Letter `u`: a pattern matches characters, and not the bytes that they are made of. -/
  characters : Bool
  /-- Letter `i`: letters match in either case. -/
  eitherCase : Bool
  /-- Letter `x`: blanks and comments do not count. -/
  spaced : Bool

namespace Switches

/-- What is switched on at the beginning. -/
def initial : Switches :=
  ⟨true, false, false⟩

/-- The letters that switch something, and the dash before those that switch it off. -/
def letters : List Char :=
  ['i', 'm', 's', 'U', 'u', 'R', 'x', '-']

/-- Whether a text consists of letters that switch something, none of them twice, and
something stands behind a dash. -/
def areLetters (text : List Char) : Bool :=
  text.all letters.contains && text.eraseDups == text && text.getLast? != some '-'

/-- What a letter leaves on: what it switches, or else what was on before. -/
def switched (text : List Char) (letter : Char) (before : Bool) : Bool :=
  if (text.takeWhile (· ≠ '-')).contains letter then true
  else if (text.dropWhile (· ≠ '-')).contains letter then false
  else before

/-- Switches letters on, and those behind a dash off. -/
def apply (s : Switches) (text : List Char) : Switches :=
  ⟨switched text 'u' s.characters, switched text 'i' s.eitherCase,
    switched text 'x' s.spaced⟩

/-- The text behind blanks and comments. A comment begins with `#` and ends with its
line. -/
def withoutSpace : (comment : Bool) → List Char → List Char
  | _, [] => []
  | true, c :: rest => withoutSpace (c ≠ '\n') rest
  | false, c :: rest =>
    if Text.isBlank c then withoutSpace false rest
    else if c = '#' then withoutSpace true rest
    else c :: rest

/-- The text behind what does not count. -/
def skip (s : Switches) (text : List Char) : List Char :=
  if s.spaced then withoutSpace false text else text

/-- The next character that counts, for one who only looks ahead: a comment is taken
for its first sign. -/
def peek (s : Switches) (text : List Char) : Option Char :=
  if s.spaced then
    match text.dropWhile Text.isBlank with
    | '#' :: rest => (rest.dropWhile Text.isBlank).head?
    | rest => rest.head?
  else text.head?

/-- Whether a character may stand for itself: there are no tables of upper and lower
case to match it in the other one, except for bytes. -/
def allowsCharacter (s : Switches) : Bool :=
  !(s.characters && s.eitherCase)

/-- Whether there is a class, or else its opposite. Classes of characters need tables
that are not there, and the opposite of a class of bytes has bytes in it that are no
text. -/
def allowsClass (s : Switches) (opposite : Bool) : Bool :=
  !s.characters && !opposite

end Switches

end Parley.Options.Pattern
