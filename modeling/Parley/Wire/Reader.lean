import Parley.Text.Utf8
import Parley.Wire.Stream

/-!
# Reading frames

A reader takes frames from a stream. Bytes wait in two places: in front, where
`Reader.awaitData` leaves what it read while it looked whether there is anything,
and in the decoder. Whatever cannot be read as a frame shows as a reception without
a payload, after which the stream should be given up.

- `Reader.receive`: one attempt to read a frame.
- `Reader.awaitData`: one attempt to see whether there is anything to read.
- `Reception.payload`, `Reception.text`: what was received.

After a fault, one reception finds nothing without reading; the next one reads
before it decodes.
-/

namespace Parley.Wire

/-- What an attempt to read a frame comes to. -/
inductive Reception where
  | frame (payload : Bytes)
  | broken (fault : FrameFault)
  | nothing

namespace Reception

/-- The payload; none if no frame was read. -/
def payload : Reception → Bytes
  | .frame payload => payload
  | _ => []

/-- The payload as text. -/
def text (r : Reception) : String :=
  Text.Utf8.decodeLossy r.payload

end Reception

/-- Reads frames from a stream. -/
structure Reader where
  /-- Bytes that were read but not given to the decoder yet. -/
  front : Bytes
  decoder : Decoder
  /-- Whether the last read found the end of the stream. -/
  ended : Bool
  /-- Whether the decoder may hold a frame. -/
  readable : Bool
  /-- Whether the last attempt met a fault. -/
  failed : Bool

namespace Reader

/-- A reader that has read nothing. -/
def fresh : Reader where
  front := []
  decoder := .empty
  ended := false
  readable := false
  failed := false

/-- Gives bytes to the decoder. -/
def feed (r : Reader) (bytes : Bytes) : Reader :=
  { r with decoder := r.decoder.feed bytes, ended := false, readable := true }

/-- What can be said without reading from the stream. -/
def settle (r : Reader) : Option Reception × Reader :=
  if r.failed then
    (some .nothing, { r with failed := false, readable := false })
  else if r.readable then
    match (if r.ended then r.decoder.finish else r.decoder.next) with
    | (.error fault, decoder) => (some (.broken fault), { r with decoder, failed := true })
    | (.ok (some payload), decoder) => (some (.frame payload), { r with decoder })
    | (.ok none, decoder) =>
      (if r.ended then some .nothing else none, { r with decoder, readable := false })
  else (none, r)

/-- Reads arrivals until something can be said. `ended` is whether the stream ends
behind them. -/
def readOn (ended : Bool) : Reader → List Arrival → Attempt Reception × Reader × List Arrival
  | r, .bytes chunk :: arrivals =>
    match (r.feed chunk).settle with
    | (some reception, r) => (.done reception, r, arrivals)
    | (none, r) => readOn ended r arrivals
  | r, .failure fault :: arrivals =>
    (.done (.broken (.io fault)), { r with failed := true }, arrivals)
  | r, [] =>
    if ended then
      if r.ended then (.done .nothing, r, [])
      else
        match ({ r with ended := true, readable := true } : Reader).settle with
        | (some reception, r) => (.done reception, r, [])
        | (none, r) => (.waiting, r, [])
    else (.waiting, r, [])

/-- Reads a frame, first from the bytes in front and then from the stream. -/
def receiveFrom (r : Reader) (s : Stream) : Attempt Reception × Reader × Stream :=
  let (result, r, arrivals) := readOn s.ended r s.arrivals
  (result, r, { s with arrivals })

/-- One attempt to read a frame. -/
def receive (r : Reader) (s : Stream) : Attempt Reception × Reader × Stream :=
  match r.settle with
  | (some reception, r) => (.done reception, r, s)
  | (none, r) =>
    if r.front.isEmpty then r.receiveFrom s
    else
      match ({ r with front := [] }.feed r.front).settle with
      | (some reception, r) => (.done reception, r, s)
      | (none, r) => r.receiveFrom s

/-- One attempt to see whether there is anything to read. It is `false` at the end
of the stream. -/
def awaitData (r : Reader) (s : Stream) : Attempt (IoResult Bool) × Reader × Stream :=
  if !r.decoder.buffer.isEmpty || !r.front.isEmpty then (.done (.ok true), r, s)
  else
    match s.read with
    | (.done (.ok chunk), s) => (.done (.ok !chunk.isEmpty), { r with front := chunk }, s)
    | (.done (.error fault), s) => (.done (.error fault), r, s)
    | (.waiting, s) => (.waiting, r, s)

end Reader

end Parley.Wire
