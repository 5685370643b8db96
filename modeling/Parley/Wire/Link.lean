import Parley.Wire.Reader
import Parley.Wire.Writer

/-!
# Links

A link is a stream with a reader and a writer of frames on it.

- `Link.receive`, `Link.awaitData`, `Link.send`, `Link.flush`, `Link.shutdown`: the
  operations of its parts.
- `Link.exchange`: sends a frame and then reads one, as far as that goes without
  waiting.
-/

namespace Parley.Wire

/-- A stream on which frames are read and written. -/
structure Link where
  stream : Stream
  reader : Reader
  writer : Writer

namespace Link

/-- A link on a stream that was not used yet. -/
def ofStream (stream : Stream) : Link where
  stream
  reader := .fresh
  writer := .fresh

def receive (l : Link) : Attempt Reception × Link :=
  let (result, reader, stream) := l.reader.receive l.stream
  (result, { l with reader, stream })

def awaitData (l : Link) : Attempt (IoResult Bool) × Link :=
  let (result, reader, stream) := l.reader.awaitData l.stream
  (result, { l with reader, stream })

def send (payload : Bytes) (l : Link) : Writer.Sending × Link :=
  let (result, writer, stream) := l.writer.send payload l.stream
  (result, { l with writer, stream })

def flush (l : Link) : Attempt (IoResult Unit) × Link :=
  let (result, writer, stream) := l.writer.flush l.stream
  (result, { l with writer, stream })

def shutdown (l : Link) : Attempt (IoResult Unit) × Link :=
  let (result, writer, stream) := l.writer.shutdown l.stream
  (result, { l with writer, stream })

/-- The far end does something. -/
def happen (l : Link) (event : Stream.FarEvent) : Link :=
  { l with stream := l.stream.happen event }

/-- The number of bytes that have arrived and were not taken as frames. -/
def available (l : Link) : Nat :=
  l.stream.arrived + l.reader.front.length + l.reader.decoder.buffer.length

/-! ## Exchanges -/

/-- Where an exchange of frames stands. -/
inductive Stage where
  /-- The frame was not taken by the writer yet. -/
  | offering
  /-- The frame is queued, and not everything is written. -/
  | flushing
  /-- The frame is written, and the other end's has not been read. -/
  | receiving

/-- How far an exchange got. -/
inductive Exchange where
  | waiting (stage : Stage)
  | finished (result : IoResult Reception)

/-- Reads the other end's frame. -/
def exchangeReceive (l : Link) : Exchange × Link :=
  match l.receive with
  | (.waiting, l) => (.waiting .receiving, l)
  | (.done reception, l) => (.finished (.ok reception), l)

/-- Goes on with an exchange from where it stands. -/
def exchange (payload : Bytes) (stage : Stage) (l : Link) : Exchange × Link :=
  match stage with
  | .offering =>
    match l.send payload with
    | (.held, l) => (.waiting .offering, l)
    | (.queued, l) => (.waiting .flushing, l)
    | (.finished (.error fault), l) => (.finished (.error fault), l)
    | (.finished (.ok ()), l) => l.exchangeReceive
  | .flushing =>
    match l.flush with
    | (.waiting, l) => (.waiting .flushing, l)
    | (.done (.error fault), l) => (.finished (.error fault), l)
    | (.done (.ok ()), l) => l.exchangeReceive
  | .receiving => l.exchangeReceive

end Link

end Parley.Wire
