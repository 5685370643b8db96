import Parley.Text.Utf8
import Parley.Wire.Stream

/-!
# Output

Where a console prints. It may break after a number of bytes; what fits before that
is still printed.

- `Output.write`: prints bytes.
- `Output.printLines`: prints lines, one after the other.
-/

namespace Parley.Console

open Wire (Bytes IoResult IoFault)

/-- What a console has printed. -/
structure Output where
  written : Bytes
  /-- How many more bytes can be printed, if there is a bound. -/
  room : Option Nat

namespace Output

/-- Nothing has been printed. -/
def empty (room : Option Nat) : Output where
  written := []
  room

/-- Prints bytes. -/
def write (bytes : Bytes) (o : Output) : IoResult Unit × Output :=
  match o.room with
  | none => (.ok (), { o with written := o.written ++ bytes })
  | some room =>
    (if bytes.length ≤ room then .ok () else .error (.ofKind .brokenPipe),
      { written := o.written ++ bytes.take room, room := some (room - bytes.length) })

/-- Prints a text and then its line end. -/
def printLine (line : String) (o : Output) : IoResult Unit × Output :=
  match o.write (Text.Utf8.encode line) with
  | (.ok (), o) => o.write [0x0a]
  | (.error fault, o) => (.error fault, o)

/-- Prints lines until one of them does not fit. -/
def printLines : List String → Output → IoResult Unit × Output
  | [], o => (.ok (), o)
  | line :: lines, o =>
    match o.printLine line with
    | (.ok (), o) => printLines lines o
    | (.error fault, o) => (.error fault, o)

end Output

end Parley.Console
