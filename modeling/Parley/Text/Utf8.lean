/-!
# UTF-8

Text as bytes, and bytes as text. Bytes are read one at a time; a sequence that
cannot be the beginning of a character is given up at the first byte that does not
fit, and reading goes on with that byte.

- `Utf8.encode`: the bytes of a text.
- `Utf8.decodeLossy`: reads bytes, with U+FFFD for every sequence that is no
  character.
- `Utf8.decode`: reads bytes that have to be a text, and says where they are not.
-/

namespace Parley.Text.Utf8

/-- The bytes of a text. -/
def encode (text : String) : List UInt8 :=
  text.toList.flatMap String.utf8EncodeChar

/-- A character of which the last bytes are still to come. -/
structure Partial where
  /-- How many bytes have been read. -/
  taken : Nat
  /-- How many bytes are still to come after the next one. -/
  more : Nat
  /-- The smallest and the largest value that the next byte may have. -/
  low : UInt8
  high : UInt8
  /-- The value of the bits read. -/
  value : Nat

/-- What a byte leads to. -/
inductive Step where
  | char (c : Char)
  | partly (state : Partial)
  /-- The byte cannot be part of a character here. -/
  | invalid

/-- Reads the first byte of a character. The bounds on the second byte exclude
overlong forms, surrogates and numbers that are too large. -/
def first (b : UInt8) : Step :=
  if b < 0x80 then .char (Char.ofNat b.toNat)
  else if b < 0xc2 then .invalid
  else if b < 0xe0 then .partly ⟨1, 0, 0x80, 0xbf, b.toNat % 32⟩
  else if b < 0xf0 then
    .partly ⟨1, 1, if b = 0xe0 then 0xa0 else 0x80, if b = 0xed then 0x9f else 0xbf,
      b.toNat % 16⟩
  else if b < 0xf5 then
    .partly ⟨1, 2, if b = 0xf0 then 0x90 else 0x80, if b = 0xf4 then 0x8f else 0xbf,
      b.toNat % 8⟩
  else .invalid

/-- Reads a further byte of a character. -/
def Partial.next (p : Partial) (b : UInt8) : Step :=
  if b < p.low || p.high < b then .invalid
  else
    let value := p.value * 64 + b.toNat % 64
    match p.more with
    | 0 => .char (Char.ofNat value)
    | more + 1 => .partly ⟨p.taken + 1, more, 0x80, 0xbf, value⟩

/-- Stands for a sequence of bytes that is no character. -/
def replacement : Char := '\ufffd'

/-- Reads bytes after a beginning of a character, if there is one. -/
def lossyFrom : Option Partial → List UInt8 → List Char
  | none, [] => []
  | some _, [] => [replacement]
  | none, b :: bytes =>
    match first b with
    | .char c => c :: lossyFrom none bytes
    | .partly p => lossyFrom (some p) bytes
    | .invalid => replacement :: lossyFrom none bytes
  | some p, b :: bytes =>
    match p.next b with
    | .char c => c :: lossyFrom none bytes
    | .partly p => lossyFrom (some p) bytes
    | .invalid =>
      replacement ::
        match first b with
        | .char c => c :: lossyFrom none bytes
        | .partly p => lossyFrom (some p) bytes
        | .invalid => replacement :: lossyFrom none bytes

/-- Reads bytes as text; what is no text shows as U+FFFD. -/
def decodeLossy (bytes : List UInt8) : String :=
  String.ofList (lossyFrom none bytes)

/-- Where bytes are not a text. -/
inductive Fault where
  /-- The bytes from `index` on, `length` many, are no character. -/
  | invalid (length index : Nat)
  /-- The bytes end inside the character that begins at `index`. -/
  | incomplete (index : Nat)

def Fault.message : Fault → String
  | .invalid length index =>
    "invalid utf-8 sequence of " ++ toString length ++ " bytes from index " ++ toString index
  | .incomplete index => "incomplete utf-8 byte sequence from index " ++ toString index

/-- Reads bytes of which the next one is at `index`, after a beginning of a
character if there is one. -/
def decodeFrom : (index : Nat) → Option Partial → List UInt8 → Except Fault (List Char)
  | _, none, [] => .ok []
  | index, some p, [] => .error (.incomplete (index - p.taken))
  | index, none, b :: bytes =>
    match first b with
    | .char c => (decodeFrom (index + 1) none bytes).map (c :: ·)
    | .partly p => decodeFrom (index + 1) (some p) bytes
    | .invalid => .error (.invalid 1 index)
  | index, some p, b :: bytes =>
    match p.next b with
    | .char c => (decodeFrom (index + 1) none bytes).map (c :: ·)
    | .partly p => decodeFrom (index + 1) (some p) bytes
    | .invalid => .error (.invalid p.taken (index - p.taken))

/-- Reads bytes that have to be a text. -/
def decode (bytes : List UInt8) : Except Fault String :=
  (decodeFrom 0 none bytes).map String.ofList

end Parley.Text.Utf8
