import Parley.Wire.Fault

/-!
# Frames

A stream of bytes is cut into frames. Each frame is four bytes that give its
length, lowest byte first, as a signed number of 32 bits, and then as many bytes
of payload.

- `encode`: the bytes of a frame.
- `Decoder.next`: takes the next frame out of the bytes received so far.
- `Decoder.finish`: the same when no more bytes will come.

A prefix that is not positive is a fault. Its four bytes are taken all the same,
so that decoding can go on behind it.
-/

namespace Parley.Wire

abbrev Bytes := List UInt8

/-- Why a frame cannot be read or written. -/
inductive FrameFault where
  | negativeLength (announced : Int)
  | emptyFrame
  /-- The stream ended inside a prefix or a payload. -/
  | truncated (expected received : Nat)
  /-- The payload is too long for the prefix. -/
  | tooLarge (length : Nat)
  | io (fault : IoFault)

def FrameFault.message : FrameFault → String
  | .negativeLength announced => "frame announced a negative length " ++ toString announced
  | .emptyFrame => "frame announced a zero length"
  | .truncated expected received =>
    "stream closed after " ++ toString received ++ " of " ++ toString expected ++ " frame bytes"
  | .tooLarge length =>
    "frame payload of " ++ toString length ++ " bytes does not fit the length prefix"
  | .io fault => "io error: " ++ fault.message

/-- The number of bytes in front of every payload. -/
def prefixLength : Nat := 4

/-! ## Prefixes -/

/-- The four bytes of a number, lowest first. -/
def prefixBytes (n : Nat) : Bytes :=
  [UInt8.ofNat n, UInt8.ofNat (n / 0x100), UInt8.ofNat (n / 0x10000), UInt8.ofNat (n / 0x1000000)]

/-- The signed number that four bytes give, lowest first. -/
def prefixValue (a b c d : UInt8) : Int :=
  Int.bmod (a.toNat + 0x100 * b.toNat + 0x10000 * c.toNat + 0x1000000 * d.toNat : Nat)
    0x100000000

/-- A payload behind its length. -/
def frameBytes (payload : Bytes) : Bytes :=
  prefixBytes payload.length ++ payload

/-- The bytes of a frame. The length has to fit the prefix. -/
def encode (payload : Bytes) : Except FrameFault Bytes :=
  if payload.length < 0x80000000 then .ok (frameBytes payload)
  else .error (.tooLarge payload.length)

/-! ## Decoding -/

/-- The bytes that were received and not decoded yet, and the length of the
payload that is due if its prefix was taken already. -/
structure Decoder where
  due : Option Nat
  buffer : Bytes

namespace Decoder

def empty : Decoder where
  due := none
  buffer := []

/-- Receives more bytes. -/
def feed (d : Decoder) (bytes : Bytes) : Decoder :=
  { d with buffer := d.buffer ++ bytes }

/-- Takes a payload of known length, if all of it is there. -/
def takePayload (length : Nat) (buffer : Bytes) : Option Bytes × Decoder :=
  if buffer.length < length then (none, ⟨some length, buffer⟩)
  else (some (buffer.take length), ⟨none, buffer.drop length⟩)

/-- Takes the payload that a prefix announces. A length that is not positive is a
fault. -/
def takeAnnounced (announced : Int) (buffer : Bytes) :
    Except FrameFault (Option Bytes) × Decoder :=
  if announced < 0 then (.error (.negativeLength announced), ⟨none, buffer⟩)
  else if announced = 0 then (.error .emptyFrame, ⟨none, buffer⟩)
  else
    let (payload, d) := takePayload announced.toNat buffer
    (.ok payload, d)

/-- Takes the next frame, if all of it is there. -/
def next (d : Decoder) : Except FrameFault (Option Bytes) × Decoder :=
  match d.due, d.buffer with
  | some length, buffer =>
    let (payload, d) := takePayload length buffer
    (.ok payload, d)
  | none, b₀ :: b₁ :: b₂ :: b₃ :: buffer => takeAnnounced (prefixValue b₀ b₁ b₂ b₃) buffer
  | none, buffer => (.ok none, ⟨none, buffer⟩)

/-- Takes the next frame when no more bytes will come. It is a fault if they end
inside a frame. -/
def finish (d : Decoder) : Except FrameFault (Option Bytes) × Decoder :=
  match d.next with
  | (.ok none, d) =>
    match d.due, d.buffer with
    | none, [] => (.ok none, d)
    | none, buffer => (.error (.truncated prefixLength buffer.length), d)
    | some expected, buffer => (.error (.truncated expected buffer.length), d)
  | result => result

end Decoder

end Parley.Wire
