import Parley.Chat.Handshake
import Parley.Chat.Node

/-!
# Flows

A flow is the two-way traffic with one peer: a handshake, and then lines in both
directions until one direction stops. A flow goes from `created` over `handshaking`
and `active` to `closed`, and never back.

Running a flow may have to wait at many points. What a run does next is its `Phase`;
`Flow.poll` goes on from there until it has to wait again.

- `Flow.handshake`: one attempt at the handshake.
- `Flow.start`: begins a run.
- `Flow.poll`: goes on with a run.
- `Flow.abandon`: gives a run up in the middle.
- `Flow.close`, `Flow.cancel`, `Flow.drop`: ways to end a flow.
-/

namespace Parley.Chat

open Wire

/-- The life of a flow. -/
inductive FlowState where
  | created
  | handshaking
  | active
  | closed
  deriving DecidableEq

/-- The parts of its link that a flow still has. -/
inductive Holding where
  | both
  /-- The reader was released; what is queued is still being written. -/
  | writer
  | nothing
  deriving DecidableEq

/-- The traffic with one peer. -/
structure Flow where
  id : FlowId
  link : Link
  holding : Holding
  state : FlowState
  /-- Whether the flow was asked to stop. -/
  cancelled : Bool
  /-- Whether the peer has shown the signature. -/
  validated : Bool
  localName : Option String
  remoteName : Option String

/-- What a run of a flow comes to. -/
abbrev FlowResult := Except FlowFault Unit

/-- Where a handshake stands. -/
inductive HandshakeStage where
  | signature (stage : Link.Stage)
  | names (stage : Link.Stage)

/-- What the sending of lines waits for. -/
inductive SendStage where
  /-- The next line. -/
  | idle
  /-- The writer has to take a line. -/
  | holding (line : String)
  /-- A line has to be written. -/
  | flushing

/-- What the receiving of lines waits for. -/
inductive ReceiveStage where
  /-- Any data. -/
  | probing
  /-- The rest of a frame. -/
  | reading

/-- What a run does next. -/
inductive Phase where
  | handshaking (stage : HandshakeStage)
  | pumping (outbox : Outbox) (sending : SendStage) (receiving : ReceiveStage)
  /-- The last frames are being written; the result is known. -/
  | closing (result : FlowResult)

/-! ## Sending lines -/

/-- How sending lines stops, if not to wait. -/
inductive Sent where
  | waiting (stage : SendStage)
  | finished (result : FlowResult)

/-- Sends the lines of a queue, and yields those that are left. Empty lines are
skipped, since an empty frame would end the flow at the other end. -/
def sendLines (ended : Bool) : List String → Link → Sent × List String × Link
  | [], l => (if ended then .finished (.ok ()) else .waiting .idle, [], l)
  | line :: lines, l =>
    if line.isEmpty then sendLines ended lines l
    else
      match l.send (Text.Utf8.encode line) with
      | (.held, l) => (.waiting (.holding line), lines, l)
      | (.queued, l) => (.waiting .flushing, lines, l)
      | (.finished (.error fault), l) => (.finished (.error (.io fault)), lines, l)
      | (.finished (.ok ()), l) => sendLines ended lines l

/-- Goes on with sending lines. -/
def pumpOut (ended : Bool) (stage : SendStage) (lines : List String) (l : Link) :
    Sent × List String × Link :=
  match stage with
  | .idle => sendLines ended lines l
  | .holding line =>
    match l.send (Text.Utf8.encode line) with
    | (.held, l) => (.waiting (.holding line), lines, l)
    | (.queued, l) => (.waiting .flushing, lines, l)
    | (.finished (.error fault), l) => (.finished (.error (.io fault)), lines, l)
    | (.finished (.ok ()), l) => sendLines ended lines l
  | .flushing =>
    match l.flush with
    | (.waiting, l) => (.waiting .flushing, lines, l)
    | (.done (.error fault), l) => (.finished (.error (.io fault)), lines, l)
    | (.done (.ok ()), l) => sendLines ended lines l

/-! ## Receiving lines -/

/-- How receiving lines stops, if not to wait. -/
inductive Received where
  | waiting (stage : ReceiveStage)
  | finished (result : FlowResult)

/-- Reads one line. -/
def readLine (l : Link) : Except Received String × Link :=
  match l.receive with
  | (.waiting, l) => (.error (.waiting .reading), l)
  | (.done reception, l) =>
    if reception.text.isEmpty then (.error (.finished (.ok ())), l) else (.ok reception.text, l)

/-- Looks for data, and reads one line if there is any. -/
def probeLine (l : Link) : Except Received String × Link :=
  match l.awaitData with
  | (.waiting, l) => (.error (.waiting .probing), l)
  | (.done (.error fault), l) => (.error (.finished (.error (.io fault))), l)
  | (.done (.ok false), l) => (.error (.finished (.ok ())), l)
  | (.done (.ok true), l) => readLine l

/-- Receives lines, at most as many as `room` says. Every line takes bytes that have
arrived, so that no more than those are ever needed. -/
def receiveLines : (room : Nat) → ReceiveStage → Link → Received × List String × Link
  | 0, stage, l => (.waiting stage, [], l)
  | room + 1, stage, l =>
    match (match stage with | .probing => probeLine l | .reading => readLine l) with
    | (.error stopped, l) => (stopped, [], l)
    | (.ok line, l) =>
      let (stopped, lines, l) := receiveLines room .probing l
      (stopped, line :: lines, l)

/-- Goes on with receiving lines. -/
def pumpIn (stage : ReceiveStage) (l : Link) : Received × List String × Link :=
  receiveLines (l.available + 1) stage l

namespace Flow

/-- A flow on a stream that was not used yet. -/
def create (id : FlowId) (stream : Stream) (cancelled : Bool) : Flow where
  id
  link := .ofStream stream
  holding := .both
  state := .created
  cancelled
  validated := false
  localName := none
  remoteName := none

/-- Whether the flow has given its link up. -/
def isDisposed (f : Flow) : Bool :=
  f.holding ≠ .both

/-! ## Handshake -/

/-- How far the handshake got. -/
inductive HandshakeProgress where
  | waiting (stage : HandshakeStage)
  | finished (result : FlowResult)

/-- Exchanges names, from where that stands. -/
def names (ownName : String) (stage : Link.Stage) (f : Flow) : HandshakeProgress × Flow :=
  match exchangeNames ownName stage f.link with
  | (.waiting stage, link) => (.waiting (.names stage), { f with link })
  | (.finished (.error fault), link) => (.finished (.error fault), { f with link })
  | (.finished (.ok remoteName), link) =>
    (.finished (.ok ()), { f with link, localName := some ownName, remoteName := some remoteName })

/-- Goes on with the handshake from where it stands. -/
def shake (ownName : String) (stage : HandshakeStage) (f : Flow) : HandshakeProgress × Flow :=
  match stage with
  | .names stage => f.names ownName stage
  | .signature stage =>
    match exchangeSignature signature stage f.link with
    | (.waiting stage, link) => (.waiting (.signature stage), { f with link })
    | (.finished (.error fault), link) => (.finished (.error fault), { f with link })
    | (.finished (.ok ()), link) =>
      names ownName .offering { f with link, validated := true }

/-- Whether signature and names were exchanged. -/
def isIntroduced (f : Flow) : Bool :=
  f.validated && f.remoteName.isSome

/-- The first stage of a handshake. What was exchanged before is not repeated. -/
def firstStage (f : Flow) : HandshakeStage :=
  if f.validated then .names .offering else .signature .offering

/-- Begins the handshake. A flow that has had it does nothing. -/
def beginHandshake (ownName : String) (f : Flow) : HandshakeProgress × Flow :=
  if f.isIntroduced then (.finished (.ok ()), f)
  else if f.isDisposed then (.finished (.error .disposed), f)
  else f.shake ownName f.firstStage

/-- One attempt at the handshake, which is given up if it has to wait. -/
def handshake (ownName : String) (f : Flow) : Attempt FlowResult × Flow :=
  match f.beginHandshake ownName with
  | (.waiting _, f) => (.waiting, f)
  | (.finished result, f) => (.done result, f)

/-! ## Closing -/

/-- Asks the flow to stop. -/
def cancel (f : Flow) : Flow :=
  { f with cancelled := true }

/-- Asks the flow to stop; one that never ran is closed at once. -/
def requestClose (f : Flow) : Flow :=
  { f.cancel with state := if f.state = .created then .closed else f.state }

/-- Goes on with writing the last frames, and releases the link after that, whether
they could be written or not. -/
def finishClosing (f : Flow) : Attempt Unit × Flow :=
  if f.holding = .writer then
    match f.link.shutdown with
    | (.waiting, link) => (.waiting, { f with link })
    | (.done _, link) => (.done (), { f with link, holding := .nothing })
  else (.done (), f)

/-- Closes the flow: it stops, lets go of its reader, and writes the last frames. -/
def beginClosing (f : Flow) : Attempt Unit × Flow :=
  finishClosing
    { f.cancel with
      state := .closed
      holding := if f.holding = .both then .writer else f.holding }

/-- What a part of the link was given up for: a writer that is taken but did not
finish is released. -/
def releaseWriter (f : Flow) : Flow :=
  { f with holding := if f.holding = .writer then .nothing else f.holding }

/-- One attempt to close the flow. If it has to wait it is given up, and the link
with it. -/
def close (f : Flow) : Attempt Unit × Flow :=
  let (result, f) := f.beginClosing
  (result, f.releaseWriter)

/-- Drops the flow, link and all. -/
def drop (f : Flow) : Flow :=
  { f.cancel with state := .closed, holding := .nothing }

/-! ## Running -/

/-- How far a run got. -/
inductive RunProgress where
  | waiting (phase : Phase)
  | finished (result : FlowResult)

/-- Ends a run whose result is known. -/
def conclude (result : FlowResult) (f : Flow) : RunProgress × Flow :=
  match f.beginClosing with
  | (.waiting, f) => (.waiting (.closing result), f)
  | (.done (), f) => (.finished result, f)

/-- Hands lines from the peer on, one after the other. -/
def consumeAll (f : Flow) (lines : List String) : List Request :=
  lines.map (.consume (f.remoteName.getD ""))

/-- Goes on with both directions, sending first, until both have to wait or one of
them stops. -/
def converse (outbox : Outbox) (sending : SendStage) (receiving : ReceiveStage) (f : Flow)
    (n : Node) : RunProgress × Flow × List Request :=
  if f.cancelled then (.finished (.ok ()), f, [])
  else
    let (sent, lines, link) := pumpOut (n.isEnded outbox) sending (n.pending outbox) f.link
    match sent with
    | .finished result => (.finished result, { f with link }, [.setPending outbox lines])
    | .waiting sending =>
      let (received, heard, link) := pumpIn receiving link
      let requests := .setPending outbox lines :: f.consumeAll heard
      match received with
      | .finished result => (.finished result, { f with link }, requests)
      | .waiting receiving =>
        (.waiting (.pumping outbox sending receiving), { f with link }, requests)

/-- Goes on with both directions. When one of them stops, gives the queue up and ends
the run. -/
def pump (outbox : Outbox) (sending : SendStage) (receiving : ReceiveStage) (f : Flow)
    (n : Node) : RunProgress × Flow × List Request :=
  match f.converse outbox sending receiving n with
  | (.waiting phase, f, requests) => (.waiting phase, f, requests)
  | (.finished result, f, requests) =>
    let (progress, f) := f.conclude result
    (progress, f, requests ++ [.closeOutbox outbox])

/-- Becomes active and opens a queue. -/
def activate (f : Flow) (n : Node) : RunProgress × Flow × List Request :=
  let f := { f with state := .active }
  match n.openOutbox f.id with
  | (.ok outbox, n) =>
    let (progress, f', requests) := f.pump outbox .idle .probing n
    (progress, f', .openOutbox f.id :: requests)
  | (.error fault, _) =>
    let (progress, f') := f.conclude (.error fault)
    (progress, f', [.openOutbox f.id])

/-- Goes on after a part of the handshake. -/
def afterHandshake (progress : HandshakeProgress) (f : Flow) (n : Node) :
    RunProgress × Flow × List Request :=
  match progress with
  | .waiting stage => (.waiting (.handshaking stage), f, [])
  | .finished (.ok ()) => f.activate n
  | .finished (.error fault) =>
    let (progress, f) := f.conclude (.error fault)
    (progress, f, [])

/-- Goes on with the handshake of a run from where it stands. -/
def pollHandshake (stage : HandshakeStage) (f : Flow) (n : Node) :
    RunProgress × Flow × List Request :=
  if f.cancelled then
    let (progress, f) := f.conclude (.ok ())
    (progress, f, [])
  else
    let (progress, f) := f.shake n.name stage
    f.afterHandshake progress n

/-- Begins a run. Only a flow that was just created can be run. The result says what
the flow asks of its node. -/
def start (f : Flow) (n : Node) : RunProgress × Flow × List Request :=
  match f.state with
  | .created =>
    let f := { f with state := .handshaking }
    if f.cancelled then
      let (progress, f) := f.conclude (.ok ())
      (progress, f, [])
    else
      let (progress, f) := f.beginHandshake n.name
      f.afterHandshake progress n
  | .closed => (.finished (.error .disposed), f, [])
  | _ => (.finished (.error .alreadyStarted), f, [])

/-- Goes on with a run. The result says what the flow asks of its node. -/
def poll (phase : Phase) (f : Flow) (n : Node) : RunProgress × Flow × List Request :=
  match phase with
  | .handshaking stage => f.pollHandshake stage n
  | .pumping outbox sending receiving => f.pump outbox sending receiving n
  | .closing result =>
    match f.finishClosing with
    | (.waiting, f) => (.waiting (.closing result), f, [])
    | (.done (), f) => (.finished result, f, [])

/-- Gives a run up in the middle. -/
def abandon (phase : Phase) (f : Flow) : Flow × List Request :=
  match phase with
  | .handshaking _ => (f, [])
  | .pumping outbox _ _ => (f, [.closeOutbox outbox])
  | .closing _ => (f.releaseWriter, [])

end Flow

end Parley.Chat
