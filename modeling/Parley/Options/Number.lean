/-!
# Numbers in words

The numbers that words of a command line stand for. Digits are the ten of plain text.

- `digitsValue?`, `integer?`: the value of a whole number.
- `isNumber`: whether a text is a number, whole or not.
-/

namespace Parley.Options

/-- The number that digits stand for, if they are digits and there is one. -/
def digitsValue? (digits : List Char) : Option Nat :=
  if digits.isEmpty || !digits.all Char.isDigit then none
  else some (digits.foldl (fun n c => 10 * n + (c.toNat - '0'.toNat)) 0)

/-- Reads a number, which may have a sign. -/
def integer? (text : List Char) : Option Int :=
  match text with
  | '-' :: digits => (digitsValue? digits).map fun n => -(n : Int)
  | '+' :: digits => (digitsValue? digits).map fun n => (n : Int)
  | digits => (digitsValue? digits).map fun n => (n : Int)

/-- The text without its sign, if it has one. -/
def withoutSign (text : List Char) : List Char :=
  match text with
  | '+' :: rest => rest
  | '-' :: rest => rest
  | rest => rest

/-- Whether a text is an exponent, or empty. -/
def isExponent (text : List Char) : Bool :=
  match text with
  | [] => true
  | c :: rest => (c = 'e' || c = 'E') && (digitsValue? (withoutSign rest)).isSome

/-- Whether a text is digits with a point among them or at an end, or without one, and
then perhaps an exponent. -/
def isDecimal (text : List Char) : Bool :=
  let whole := text.takeWhile Char.isDigit
  match text.dropWhile Char.isDigit with
  | '.' :: rest =>
    (!whole.isEmpty || !(rest.takeWhile Char.isDigit).isEmpty) &&
      isExponent (rest.dropWhile Char.isDigit)
  | rest => !whole.isEmpty && isExponent rest

/-- What a number can be beside a decimal, in letters of either case. -/
def numberNames : List String :=
  ["inf", "infinity", "nan"]

/-- Whether a text is a number. -/
def isNumber (text : List Char) : Bool :=
  isDecimal (withoutSign text) ||
    numberNames.contains (String.ofList ((withoutSign text).map Char.toLower))

end Parley.Options
