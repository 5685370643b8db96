import Parley.Wire.Frame

/-!
# Streams

The near end of a two-way stream of bytes, together with what the far end has done
so far: what it sent and was not read yet, whether it has ended the stream, and how
much it is willing to accept.

- `Attempt`: what trying something once comes to, if it may have to wait.
- `Stream.read`: one read.
- `Stream.write`: writes bytes until all are written or no more are accepted.
- `Stream.happen`: what the far end does, by `Stream.FarEvent`.
-/

namespace Parley.Wire

/-- The result of trying something once. -/
inductive Attempt (α : Type) where
  /-- It would have to wait for the far end. -/
  | waiting
  | done (result : α)

/-- The result of input or output. -/
abbrev IoResult (α : Type) := Except IoFault α

/-- What arrives from the far end, in the order it is read. -/
inductive Arrival where
  | bytes (chunk : Bytes)
  | failure (fault : IoFault)

/-- The number of bytes that arrive. -/
def Arrival.size : Arrival → Nat
  | .bytes chunk => chunk.length
  | .failure _ => 0

/-- What happens to writes when no more bytes are accepted. -/
inductive Refusal where
  | fail
  /-- No byte is accepted, and nothing is said about why. -/
  | ignore
  | block

/-- How many bytes the far end accepts. -/
inductive Acceptance where
  | everything
  | upTo (count : Nat) (refusal : Refusal)

/-- The near end of a stream. -/
structure Stream where
  arrivals : List Arrival
  /-- Whether the far end has ended the stream, behind what has arrived. -/
  ended : Bool
  acceptance : Acceptance
  /-- All bytes that were written. -/
  written : Bytes
  /-- Whether the near end has ended writing. -/
  shut : Bool

namespace Stream

/-- A stream on which nothing has happened. -/
def idle : Stream where
  arrivals := []
  ended := false
  acceptance := .everything
  written := []
  shut := false

/-! ## The far end -/

/-- The most bytes that one read takes. -/
def readLimit : Nat := 8192

/-- Cuts a chunk into what single reads take of it. At most as many pieces are
cut as `room` says. -/
def piecesWithin : (room : Nat) → Bytes → List Bytes
  | _, [] => []
  | 0, chunk => [chunk]
  | room + 1, chunk => chunk.take readLimit :: piecesWithin room (chunk.drop readLimit)

/-- The pieces in which single reads take a chunk. -/
def pieces (chunk : Bytes) : List Bytes :=
  piecesWithin chunk.length chunk

/-- A chunk of bytes arrives. -/
def arrive (chunk : Bytes) (s : Stream) : Stream :=
  { s with arrivals := s.arrivals ++ (pieces chunk).map .bytes }

/-- One read will fail, after what has arrived before. -/
def fail (fault : IoFault) (s : Stream) : Stream :=
  { s with arrivals := s.arrivals ++ [.failure fault] }

/-- The far end ends the stream. -/
def finish (s : Stream) : Stream :=
  { s with ended := true }

/-- The far end changes how much it accepts. -/
def accept (acceptance : Acceptance) (s : Stream) : Stream :=
  { s with acceptance }

/-- Something that the far end does. -/
inductive FarEvent where
  | arrive (chunk : Bytes)
  | fail (fault : IoFault)
  | finish
  | accept (acceptance : Acceptance)

/-- The far end does something. -/
def happen (s : Stream) : FarEvent → Stream
  | .arrive chunk => s.arrive chunk
  | .fail fault => s.fail fault
  | .finish => s.finish
  | .accept acceptance => s.accept acceptance

/-- The number of bytes that have arrived and were not read. -/
def arrived (s : Stream) : Nat :=
  s.arrivals.foldr (fun arrival count => arrival.size + count) 0

/-! ## The near end -/

/-- One read. No bytes mean the end of the stream. -/
def read (s : Stream) : Attempt (IoResult Bytes) × Stream :=
  match s.arrivals with
  | .bytes chunk :: arrivals => (.done (.ok chunk), { s with arrivals })
  | .failure fault :: arrivals => (.done (.error fault), { s with arrivals })
  | [] => (if s.ended then .done (.ok []) else .waiting, s)

/-- What a writer meets when no more bytes are accepted. -/
def Refusal.result : Refusal → Attempt (IoResult Unit)
  | .fail => .done (.error (.ofKind .brokenPipe))
  | .ignore => .done (.error ⟨.writeZero, "failed to write frame to transport"⟩)
  | .block => .waiting

/-- Writes bytes in order, as many as are accepted. Yields those that are left. -/
def write (bytes : Bytes) (s : Stream) : Attempt (IoResult Unit) × Bytes × Stream :=
  match s.acceptance with
  | .everything => (.done (.ok ()), [], { s with written := s.written ++ bytes })
  | .upTo count refusal =>
    if bytes.length ≤ count then
      (.done (.ok ()), [],
        { s with
          written := s.written ++ bytes
          acceptance := .upTo (count - bytes.length) refusal })
    else
      (Refusal.result refusal, bytes.drop count,
        { s with
          written := s.written ++ bytes.take count
          acceptance := .upTo 0 refusal })

/-- Ends writing. -/
def shutdown (s : Stream) : Stream :=
  { s with shut := true }

theorem written_write (bytes : Bytes) (s : Stream) :
    (s.write bytes).2.2.written ++ (s.write bytes).2.1 = s.written ++ bytes := by
  unfold write
  split
  · simp
  · split <;> simp

end Stream

end Parley.Wire
