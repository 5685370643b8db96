/-!
# Stamps

The form in which a server relays a line: date and time, the sender's name, and the
text, as in `[2024/03/09 07:05:03.1204506]<alice>hi there`.

- `DateTime.ofParts?`: a date and time of the Gregorian calendar, continued in both
  directions.
- `stamp`: the stamped line.
- `Clock`: where the time of a stamp is read.
-/

namespace Parley.Chat

/-- A date and time. A second may be a leap second, the fraction of which counts on
from one whole second. -/
structure DateTime where
  year : Int
  month : Nat
  day : Nat
  hour : Nat
  minute : Nat
  second : Nat
  nano : Nat

namespace DateTime

def isLeapYear (year : Int) : Bool :=
  year % 4 = 0 && (year % 100 ≠ 0 || year % 400 = 0)

/-- The number of days of a month; none if there is no such month. -/
def daysInMonth (year : Int) (month : Int) : Nat :=
  if month = 2 then (if isLeapYear year then 29 else 28)
  else if month = 4 ∨ month = 6 ∨ month = 9 ∨ month = 11 then 30
  else if 1 ≤ month ∧ month ≤ 12 then 31
  else 0

/-- The first and the last year that can be given. -/
def minYear : Int := -262143
def maxYear : Int := 262142

/-- The number of nanoseconds in a second. -/
def nanosPerSecond : Nat := 1000000000

/-- Whether numbers name a day and a time. Only the last second of a minute may be a
leap second. -/
def isValid (year month day hour minute second nano : Int) : Bool :=
  minYear ≤ year && year ≤ maxYear
    && 1 ≤ day && day ≤ daysInMonth year month
    && 0 ≤ hour && hour < 24
    && 0 ≤ minute && minute < 60
    && 0 ≤ second && second < 60
    && 0 ≤ nano && nano < (if second = 59 then 2 * nanosPerSecond else nanosPerSecond)

/-- The date and time with these parts, if there is one. -/
def ofParts? (year month day hour minute second nano : Int) : Option DateTime :=
  if isValid year month day hour minute second nano then
    some ⟨year, month.toNat, day.toNat, hour.toNat, minute.toNat, second.toNat, nano.toNat⟩
  else none

end DateTime

/-! ## Printed forms -/

/-- A number with at least `width` digits. -/
def padded (width n : Nat) : String :=
  let digits := Nat.toDigits 10 n
  String.ofList (List.replicate (width - digits.length) '0' ++ digits)

/-- A year. Years outside 0 to 9999 show a sign. -/
def yearText (year : Int) : String :=
  if 0 ≤ year ∧ year ≤ 9999 then padded 4 year.toNat
  else if year < 0 then "-" ++ padded 4 year.natAbs
  else "+" ++ padded 4 year.toNat

namespace DateTime

/-- The second of the minute; a leap second is the sixtieth. -/
def shownSecond (at_ : DateTime) : Nat :=
  at_.second + at_.nano / nanosPerSecond

/-- The largest fraction that is shown. -/
def maxTicks : Nat := 9999999

/-- The fraction of the second, in units of 100 nanoseconds. -/
def ticks (at_ : DateTime) : Nat :=
  min (at_.nano / 100) maxTicks

/-- Date and time as they stand in a stamp. -/
def text (at_ : DateTime) : String :=
  yearText at_.year ++ "/" ++ padded 2 at_.month ++ "/" ++ padded 2 at_.day ++ " "
    ++ padded 2 at_.hour ++ ":" ++ padded 2 at_.minute ++ ":" ++ padded 2 at_.shownSecond
    ++ "." ++ padded 7 at_.ticks

end DateTime

/-- A line the way a server relays it. -/
def stamp (at_ : DateTime) (sender line : String) : String :=
  "[" ++ at_.text ++ "]<" ++ sender ++ ">" ++ line

/-! ## Clocks -/

/-- A clock, by what it shows whenever it is read. -/
structure Clock where
  /-- What it shows after it was read so many times. -/
  reading : Nat → DateTime

namespace Clock

/-- What the clock shows. -/
def now (clock : Clock) : DateTime :=
  clock.reading 0

/-- The clock after it was read. -/
def tick (clock : Clock) : Clock :=
  ⟨fun count => clock.reading (count + 1)⟩

/-- A clock that stands still. -/
def still (time : DateTime) : Clock :=
  ⟨fun _ => time⟩

end Clock

instance : Coe DateTime Clock :=
  ⟨Clock.still⟩

end Parley.Chat
