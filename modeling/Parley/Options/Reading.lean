import Parley.Options.Fault
import Parley.Options.Number

/-!
# Reading the command line

The words of a command line, one after the other. An option is written as `-x` or
`--word`; its value is the next word, or stands directly behind it, in the long form
and if one likes in the short form behind `=`. A value that is a word of its own is
looked at only when the next option comes or the line ends.

- `Options`: how to run the program.
- `Settings`: what was given so far.
- `Options.read`: reads a command line.
- `Options.check`: whether options can be followed.
-/

namespace Parley

/-- How to run the program. -/
structure Options where
  mode : Options.Mode
  /-- The server that a client connects to. -/
  hostName : String
  /-- Where a server listens and a client connects to; zero leaves the choice to the
  system. -/
  portNumber : UInt16
  userName : String
  noLogo : Bool
  logLevel : Option String

namespace Options

/-- What was given on the command line. -/
structure Settings where
  mode : Option Mode
  hostName : Option String
  portNumber : Option UInt16
  userName : Option String
  noLogo : Bool
  logLevel : Option String

/-! ## Values -/

/-- Reads a number of sixteen bits. -/
def uint16? (text : String) : Option UInt16 :=
  match integer? text.toList with
  | some n => if 0 ≤ n ∧ n < 0x10000 then some (UInt16.ofNat n.toNat) else none
  | none => none

namespace Settings

/-- Nothing was given. -/
def empty : Settings where
  mode := none
  hostName := none
  portNumber := none
  userName := none
  noLogo := false
  logLevel := none

/-- Whether something was given. -/
def has (s : Settings) : Key → Bool
  | .mode => s.mode.isSome
  | .hostName => s.hostName.isSome
  | .portNumber => s.portNumber.isSome
  | .userName => s.userName.isSome
  | .noLogo => s.noLogo
  | .logLevel => s.logLevel.isSome
  | .help | .version => false

/-- Takes in a value that was given. -/
def assign (key : Key) (value : String) (s : Settings) : Except Fault Settings :=
  if s.has key then .error (.repeated key)
  else
    match key with
    | .mode =>
      match Mode.ofWord? value with
      | some mode => .ok { s with mode := some mode }
      | none => .error (.noSuchChoice .mode value)
    | .portNumber =>
      match uint16? value with
      | some n => .ok { s with portNumber := some n }
      | none => .error (.badNumber .portNumber value)
    | .hostName => .ok { s with hostName := some value }
    | .userName => .ok { s with userName := some value }
    | .logLevel => .ok { s with logLevel := some value }
    | .noLogo | .help | .version => .error (.unneededValue key value)

/-- Takes in something without a value that was given. -/
def raise (key : Key) (long : Bool) (s : Settings) : Except Fault Settings :=
  match key with
  | .help => .error (.helpRequested long)
  | .version => .error .versionRequested
  | .noLogo => if s.noLogo then .error (.repeated .noLogo) else .ok { s with noLogo := true }
  | key => .error (.missingValue key)

/-- The options, with a choice made for what was not given. -/
def complete (s : Settings) : Except Fault Options :=
  match s.mode with
  | some mode =>
    .ok
      { mode
        hostName := s.hostName.getD defaultHost
        portNumber := s.portNumber.getD 0
        userName := s.userName.getD defaultUserName
        noLogo := s.noLogo
        logLevel := s.logLevel }
  | none => .error .missingMode

end Settings

/-! ## Words -/

/-- What a word is by its form. -/
inductive Word where
  /-- Two dashes alone: no option comes behind them. -/
  | divider
  /-- Two dashes, a word, and what stands behind `=`. -/
  | long (word : String) (attached : Option String)
  /-- A dash and letters. -/
  | short (letters : List Char)
  | plain (text : String)

/-- The parts of a text before and behind the first `=`. -/
def cutAtEquals (text : List Char) : List Char × Option (List Char) :=
  match text.dropWhile (· ≠ '=') with
  | [] => (text, none)
  | _ :: rest => (text.takeWhile (· ≠ '='), some rest)

/-- Tells the form of a word. A dash alone is a plain word. -/
def Word.ofText (text : String) : Word :=
  match text.toList with
  | ['-', '-'] => .divider
  | '-' :: '-' :: rest =>
    let (word, attached) := cutAtEquals rest
    .long (String.ofList word) (attached.map String.ofList)
  | '-' :: c :: rest => .short (c :: rest)
  | _ => .plain text

/-! ## Lines -/

/-- Where reading a command line stands. -/
structure Reading where
  settings : Settings
  /-- What waits to be taken in, with its value once that has come. -/
  pending : Option (Key × Option String)
  /-- Whether options can no longer come. -/
  divided : Bool

namespace Reading

/-- Nothing was read. -/
def start : Reading where
  settings := .empty
  pending := none
  divided := false

/-- Takes in what waits. -/
def settle (r : Reading) : Except Fault Reading :=
  match r.pending with
  | none => .ok r
  | some (key, none) => .error (.missingValue key)
  | some (key, some value) => do
    .ok { r with settings := ← r.settings.assign key value, pending := none }

/-- An option came with what stands directly behind it. -/
def takeValue (key : Key) (attached : Option String) (r : Reading) : Except Fault Reading := do
  let r ← r.settle
  match attached with
  | some value => .ok { r with settings := ← r.settings.assign key value }
  | none => .ok { r with pending := some (key, none) }

/-- Something without a value came. -/
def takeFlag (key : Key) (long : Bool) (r : Reading) : Except Fault Reading := do
  let r ← r.settle
  .ok { r with settings := ← r.settings.raise key long }

/-- The value in what stands directly behind a letter. -/
def attachedTo : List Char → Option String
  | [] => none
  | '=' :: rest => some (String.ofList rest)
  | text => some (String.ofList text)

/-- Reads letters behind a single dash. What stands behind a letter that needs a value
is its value. -/
def takeLetters : List Char → Reading → Except Fault Reading
  | [], r => .ok r
  | letter :: rest, r =>
    match Entry.ofLetter? letter with
    | none => .error (.unknown (String.ofList ['-', letter]))
    | some entry =>
      if entry.value.isSome then r.takeValue entry.key (attachedTo rest)
      else do takeLetters rest (← r.takeFlag entry.key false)

/-- Reads a word behind two dashes. -/
def takeLong (word : String) (attached : Option String) (r : Reading) : Except Fault Reading :=
  match Entry.ofWord? word with
  | none => .error (.unknown ("--" ++ word))
  | some entry =>
    if entry.value.isSome then r.takeValue entry.key attached
    else
      match attached with
      | some value => .error (.unneededValue entry.key value)
      | none => r.takeFlag entry.key true

/-- Reads a word that is no option. -/
def takePlain (text : String) (r : Reading) : Except Fault Reading :=
  match r.pending with
  | some (key, none) => .ok { r with pending := some (key, some text) }
  | _ => .error (.unknown text)

/-- Reads the next word. -/
def take (r : Reading) (text : String) : Except Fault Reading :=
  if r.divided then .error (.unknown text)
  else
    match Word.ofText text with
    | .divider => .ok { r with divided := true }
    | .long word attached => r.takeLong word attached
    | .short letters => r.takeLetters letters
    | .plain text => r.takePlain text

end Reading

/-- Reads the words of a command line, without the name of the program. -/
def read (words : List String) : Except Fault Options := do
  let r ← words.foldlM Reading.take .start
  let r ← r.settle
  r.settings.complete

/-! ## Use -/

/-- Whether options can be followed. -/
def check (o : Options) : Except Misuse Unit :=
  if o.mode = .client ∧ o.portNumber = 0 then .error .clientWithoutPort
  else if o.userName.isEmpty then .error .emptyUserName
  else .ok ()

/-- Where a server listens: on every interface. -/
def listenAddress (o : Options) : String :=
  "0.0.0.0:" ++ toString o.portNumber.toNat

end Options

end Parley
