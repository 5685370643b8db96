import Parley.Text.Blank
import Parley.Text.Utf8
import Parley.Wire.Stream

/-!
# Lines

The bytes that come in at a console, as lines. A line ends at a line feed, and a
carriage return directly before it belongs to the line end. What stands behind the
last line feed is a line too, unless there is nothing.

- `splitLines`: the lines as bytes.
- `decodeLine`: a line as text.
- `Typed.ofBytes`: the lines up to where reading them stops.
-/

namespace Parley.Console

open Wire (Bytes IoResult)

def lineFeed : UInt8 := 0x0a

def carriageReturn : UInt8 := 0x0d

/-- Puts a byte in front of the first line. -/
def extendFirst (b : UInt8) : List Bytes → List Bytes
  | [] => [[b]]
  | line :: lines => (b :: line) :: lines

/-- Cuts bytes into lines, without the line ends. -/
def splitLines : Bytes → List Bytes
  | [] => []
  | b :: bytes =>
    if b = lineFeed then [] :: splitLines bytes
    else if b = carriageReturn ∧ bytes.head? = some lineFeed then splitLines bytes
    else extendFirst b (splitLines bytes)

/-- The text of a line. -/
def decodeLine (line : Bytes) : IoResult String :=
  match Text.Utf8.decode line with
  | .ok text => .ok text
  | .error fault => .error ⟨.invalidData, fault.message⟩

/-- The lines that end the input when they are typed. -/
def quitCommands : List String :=
  ["/quit", "/exit"]

/-- Whether a line asks to end the input. -/
def asksToQuit (line : String) : Bool :=
  quitCommands.contains (Text.trim line)

/-- What was typed at a console. -/
structure Typed where
  /-- The lines before the input ended. -/
  lines : List String
  /-- How it ended. -/
  ending : IoResult Unit

namespace Typed

/-- Reads lines until they end, one of them asks to quit, or one is not a text. -/
def ofLines : List Bytes → Typed
  | [] => ⟨[], .ok ()⟩
  | bytes :: rest =>
    match decodeLine bytes with
    | .error fault => ⟨[], .error fault⟩
    | .ok line =>
      if asksToQuit line then ⟨[], .ok ()⟩
      else
        let typed := ofLines rest
        { typed with lines := line :: typed.lines }

/-- Reads the input of a console. -/
def ofBytes (bytes : Bytes) : Typed :=
  ofLines (splitLines bytes)

/-- Passes the lines on. The result is how many were passed on, and which. If nobody
takes them the first one already ends it. -/
def forward (taken : Bool) (typed : Typed) : IoResult Nat × List String :=
  if taken || typed.lines.isEmpty then
    (typed.ending.map fun _ => typed.lines.length, typed.lines)
  else (.ok 0, [])

end Typed

end Parley.Console
