import Parley.Formula.Cursor

/-!
# Words of a formula

Reading keywords, signs and integers from a cursor. What is not there leaves the
cursor where it was.

- `Cursor.keyword`: a word that no identifier character follows.
- `Cursor.sign`: `+` or `-`.
- `Cursor.integer`: a decimal integer of 64 bits with an optional sign.
-/

namespace Parley.Formula

/-- The characters that identifiers are made of. -/
def isIdentChar (c : Char) : Bool :=
  c.isAlphanum || c == '_'

/-- The two signs. -/
inductive Sign where
  | plus
  | minus

namespace Sign

def ofChar? (c : Char) : Option Sign :=
  if c = '+' then some .plus else if c = '-' then some .minus else none

/-- The integer with this sign and this magnitude. -/
def applyTo (magnitude : Nat) : Sign → Int
  | .plus => magnitude
  | .minus => -magnitude

end Sign

/-- The 64-bit integer with this value, if there is one. -/
def int64? (value : Int) : Option Int64 :=
  if -0x8000000000000000 ≤ value ∧ value < 0x8000000000000000 then some (Int64.ofInt value)
  else none

namespace Cursor

/-- Takes a keyword unless it is the beginning of a longer identifier. -/
def keyword (word : List Char) (c : Cursor) : Bool × Cursor :=
  let (present, inside) := c.beginScope.advanceIfText word
  let whole := present && !inside.peek.any isIdentChar
  (whole, inside.endScope (!whole))

/-- Takes a sign. -/
def sign (c : Cursor) : Option Sign × Cursor :=
  match c.peek.bind Sign.ofChar? with
  | some sign => (some sign, { c with rest := c.rest.tail })
  | none => (none, c)

/-- Takes the digits that come next. -/
def digits (c : Cursor) : List Char × Cursor :=
  (c.rest.takeWhile Char.isDigit, { c with rest := c.rest.dropWhile Char.isDigit })

/-- The integer with the sign and the decimal digits given. There has to be a
digit, and the value has to fit. -/
def integerOf? (sign : Option Sign) (digits : List Char) : Option Int64 :=
  if digits.isEmpty then none
  else int64? ((sign.getD .plus).applyTo (Nat.ofDigitChars 10 digits 0))

/-- Takes an integer with an optional sign. -/
def integer (c : Cursor) : Option Int64 × Cursor :=
  let (sign, afterSign) := c.beginScope.sign
  let (digits, afterDigits) := afterSign.digits
  let value := integerOf? sign digits
  (value, afterDigits.endScope value.isNone)

end Cursor

end Parley.Formula
