import Parley.Wire.Stream

/-!
# Writing frames

A writer queues frames and writes them to a stream in order. What could not be
written stays queued and goes first the next time.

- `Writer.flush`: writes what is queued.
- `Writer.send`: queues a frame and flushes. A writer with much in its queue is
  flushed first, and takes no frame while that does not succeed.
- `Writer.shutdown`: flushes, and ends writing.
-/

namespace Parley.Wire

/-- Writes frames to a stream. -/
structure Writer where
  /-- Bytes that were not written yet. -/
  queue : Bytes

namespace Writer

/-- A writer with nothing to write. -/
def fresh : Writer where
  queue := []

/-- The length of the queue from which on it is flushed before a frame is taken. -/
def fullLength : Nat := 8192

/-- How far the sending of a frame got. -/
inductive Sending where
  /-- The frame was not taken: what was queued before has to be written first. -/
  | held
  /-- The frame is queued, and not everything is written. -/
  | queued
  | finished (result : IoResult Unit)

/-- Writes what is queued. -/
def flush (w : Writer) (s : Stream) : Attempt (IoResult Unit) × Writer × Stream :=
  let (result, queue, s) := s.write w.queue
  (result, ⟨queue⟩, s)

/-- Makes room for a frame. -/
def ready (w : Writer) (s : Stream) : Attempt (IoResult Unit) × Writer × Stream :=
  if w.queue.length < fullLength then (.done (.ok ()), w, s) else w.flush s

/-- Queues a frame. A payload that fits no frame is left out. -/
def enqueue (payload : Bytes) (w : Writer) : Except FrameFault Writer :=
  (encode payload).map fun frame => ⟨w.queue ++ frame⟩

/-- Queues a frame and flushes. A payload that fits no frame is skipped. -/
def put (payload : Bytes) (w : Writer) (s : Stream) : Sending × Writer × Stream :=
  match w.enqueue payload with
  | .error _ => (.finished (.ok ()), w, s)
  | .ok w =>
    match w.flush s with
    | (.waiting, w, s) => (.queued, w, s)
    | (.done result, w, s) => (.finished result, w, s)

/-- Sends a frame, once there is room for it. -/
def send (payload : Bytes) (w : Writer) (s : Stream) : Sending × Writer × Stream :=
  match w.ready s with
  | (.waiting, w, s) => (.held, w, s)
  | (.done (.error fault), w, s) => (.finished (.error fault), w, s)
  | (.done (.ok ()), w, s) => w.put payload s

/-- Flushes, and ends writing if that succeeds. -/
def shutdown (w : Writer) (s : Stream) : Attempt (IoResult Unit) × Writer × Stream :=
  match w.flush s with
  | (.done (.ok ()), w, s) => (.done (.ok ()), w, s.shutdown)
  | result => result

end Writer

end Parley.Wire
