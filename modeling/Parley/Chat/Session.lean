import Parley.Chat.Flow

/-!
# Sessions

A session is a node together with its peers. Peers do things at the far ends of
their streams; at the near end flows are opened, run and closed. After every action
all runs go on until none of them can.

- `Session.Action`, `Session.Answer`: what can be done, and what it answers.
- `Session.act`: does it, and lets all runs go on.
-/

namespace Parley.Chat

open Wire

/-- What became of a flow at the near end. -/
inductive Presence where
  /-- The connection was not turned into a flow yet. -/
  | connected
  /-- The flow is not running. -/
  | idle
  | running (phase : Phase)
  /-- Nobody has the flow any more. -/
  | gone

/-- One peer of a session. -/
structure Peer where
  name : String
  flow : Flow
  /-- Whether the flow was opened directly, so that there is a handle to it. -/
  handled : Bool
  presence : Presence
  /-- The result of the last run that ended. -/
  result : Option FlowResult

/-- A node with its peers. -/
structure Session where
  node : Node
  peers : List Peer
  nextFlow : FlowId
  /-- Whether all flows were asked to stop. -/
  cancelled : Bool
  /-- Queues that were opened without a flow, by name. -/
  outboxes : List (String × Outbox)
  /-- The identifier of the next queue opened without a flow. -/
  nextOutbox : FlowId

/-- What the near end knows of a flow. -/
structure FlowInfo where
  validated : Bool
  disposed : Bool
  localName : Option String
  remoteName : Option String
  state : FlowState
  node : String

namespace Peer

/-- What is left of a peer after a run has ended. A connection is gone with its
run. -/
def afterRun (p : Peer) (result : FlowResult) : Peer :=
  if p.handled then { p with presence := .idle, result := some result }
  else { p with presence := .gone, flow := p.flow.drop, result := some result }

/-- Takes in how far the run of a peer got. -/
def settle (p : Peer) (progress : Flow.RunProgress) (flow : Flow) : Peer :=
  match progress with
  | .waiting phase => { p with flow, presence := .running phase }
  | .finished result => afterRun { p with flow } result

/-- Lets the run of a peer go on. The result says what its flow asks of the node. -/
def poll (p : Peer) (n : Node) : Peer × List Request :=
  match p.presence with
  | .running phase =>
    let (progress, flow, requests) := p.flow.poll phase n
    (p.settle progress flow, requests)
  | _ => (p, [])

/-- Begins the run of a peer. -/
def start (p : Peer) (n : Node) : Peer × List Request :=
  let (progress, flow, requests) := p.flow.start n
  (p.settle progress flow, requests)

/-- Whether a run makes a flow of this connection. -/
def isUnnumbered (p : Peer) : Bool :=
  match p.presence with
  | .connected => !p.flow.isDisposed
  | _ => false

/-- Runs a flow, or makes the flow of number `id` of a connection and runs it. A
connection that was disposed of has no stream to run on. -/
def run (id : FlowId) (cancelled : Bool) (p : Peer) (n : Node) : Peer × List Request :=
  match p.presence with
  | .idle => p.start n
  | .connected =>
    if p.flow.isDisposed then (p.afterRun (.error .disposed), [])
    else start { p with flow := { p.flow with id, cancelled } } n
  | _ => (p, [])

/-- Begins the run of an idle flow and gives it up when it has to wait. -/
def runOnce (p : Peer) (n : Node) : Attempt FlowResult × Peer × List Request :=
  match p.flow.start n with
  | (.finished result, flow, requests) => (.done result, { p with flow }, requests)
  | (.waiting phase, flow, requests) =>
    let (flow, more) := flow.abandon phase
    (.waiting, { p with flow }, requests ++ more)

end Peer

namespace Session

/-- What can be done in a session. -/
inductive Action where
  | farEnd (peer : String) (event : Stream.FarEvent)
  /-- Opens a flow on a new stream. -/
  | openFlow (peer : String)
  /-- Opens a connection on a new stream, without turning it into a flow. -/
  | openConnection (peer : String)
  | run (peer : String)
  /-- Begins a run, and gives it up when it has to wait. -/
  | runOnce (peer : String)
  | handshake (peer : String)
  | closeFlow (peer : String)
  /-- Asks a flow to stop, through its handle. -/
  | requestClose (peer : String)
  | dropFlow (peer : String)
  | disposeConnection (peer : String)
  | info (peer : String)
  | typeLine (line : String)
  | endTyping
  | closeConsole
  /-- Asks all flows to stop. -/
  | cancel
  | broadcast (line : String)
  | consume (sender line : String)
  | openOutbox (name : String)
  | nextLine (name : String)
  | closeOutbox (name : String)

/-- What an action answers. -/
inductive Answer where
  | nothing
  | opened (id : FlowId)
  | flag (value : Bool)
  | count (value : Nat)
  | attempt (result : Attempt FlowResult)
  | info (info : FlowInfo)
  | noFlow
  | line (line : Attempt (Option String))

/-- The first identifier of queues that are opened without a flow. They go down, so that
no flow has one of them. -/
def firstOutbox : FlowId := -1

/-- A session without peers. -/
def ofNode (node : Node) : Session where
  node
  peers := []
  nextFlow := 1
  cancelled := false
  outboxes := []
  nextOutbox := firstOutbox

/-- The peer with a given name. -/
def peer? (s : Session) (name : String) : Option Peer :=
  s.peers.find? fun peer => peer.name == name

/-- Replaces the peer of the same name, or adds one. -/
def setPeer (peer : Peer) (s : Session) : Session :=
  { s with
    peers :=
      if s.peers.any (fun other => other.name == peer.name) then
        s.peers.map fun other => if other.name == peer.name then peer else other
      else s.peers ++ [peer] }

/-! ## Runs -/

/-- Lets the runs of peers go on, one after the other. -/
def pollPeers : List Peer → Node → List Peer × Node
  | [], n => ([], n)
  | p :: peers, n =>
    let (p, requests) := p.poll n
    let (peers, n) := pollPeers peers (n.serveAll requests)
    (p :: peers, n)

/-- Lets every run go on once. -/
def poll (s : Session) : Session :=
  let (peers, node) := pollPeers s.peers s.node
  { s with peers, node }

/-- Lets all runs go on until none of them can. The first round takes in all that
has arrived, and the second passes on what came of it. -/
def settle (s : Session) : Session :=
  s.poll.poll

/-! ## Actions -/

/-- Goes on with a peer, if there is one. -/
def withPeer (s : Session) (name : String) (f : Peer → Answer × Session) : Answer × Session :=
  match s.peer? name with
  | some peer => f peer
  | none => (.nothing, s)

/-- Goes on with a peer whose flow is not running, if there is one. -/
def withIdle (s : Session) (name : String) (f : Peer → Answer × Session) : Answer × Session :=
  match s.peer? name with
  | some peer =>
    match peer.presence with
    | .idle => f peer
    | _ => (.noFlow, s)
  | none => (.noFlow, s)

/-- Opens a flow. -/
def openFlow (s : Session) (name : String) : Answer × Session :=
  let flow := Flow.create s.nextFlow .idle s.cancelled
  (.opened s.nextFlow,
    { s with nextFlow := s.nextFlow + 1 }.setPeer
      { name, flow, handled := true, presence := .idle, result := none })

/-- Opens a connection. It gets its number when it becomes a flow. -/
def openConnection (s : Session) (name : String) : Answer × Session :=
  let flow := Flow.create 0 .idle s.cancelled
  (.nothing,
    s.setPeer { name, flow, handled := false, presence := .connected, result := none })

/-- Puts a peer in the place of the one of the same name, and does what its flow asks. -/
def serve (s : Session) (p : Peer) (requests : List Request) : Session :=
  { s with node := s.node.serveAll requests }.setPeer p

/-- Runs a flow, or turns a connection into a flow and runs it. -/
def run (s : Session) (p : Peer) : Session :=
  let (p', requests) := p.run s.nextFlow s.cancelled s.node
  { s with nextFlow := if p.isUnnumbered then s.nextFlow + 1 else s.nextFlow }.serve p' requests

/-- Begins the run of an idle flow and gives it up when it has to wait. -/
def runOnce (s : Session) (p : Peer) : Answer × Session :=
  let (result, p, requests) := p.runOnce s.node
  (.attempt result, s.serve p requests)

/-- What is known of the flow of a peer. -/
def infoOf (s : Session) (p : Peer) : FlowInfo where
  validated := p.flow.validated
  disposed := p.flow.isDisposed
  localName := p.flow.localName
  remoteName := p.flow.remoteName
  state := p.flow.state
  node := s.node.name

/-- Gives a queue up that was opened under a name. -/
def closeOutbox (s : Session) (name : String) : Session :=
  match s.outboxes.lookup name with
  | some outbox =>
    { s with
      node := s.node.closeOutbox outbox
      outboxes := s.outboxes.filter fun entry => entry.1 != name }
  | none => s

/-- Opens a queue under a name, in place of one that was opened before. -/
def openOutbox (s : Session) (name : String) : Answer × Session :=
  match s.node.openOutbox s.nextOutbox with
  | (.error fault, node) => (.attempt (.done (.error fault)), { s with node })
  | (.ok outbox, node) =>
    let s := { s with node, nextOutbox := s.nextOutbox - 1 }.closeOutbox name
    (.attempt (.done (.ok ())), { s with outboxes := (name, outbox) :: s.outboxes })

/-- Takes the next line of a queue that was opened under a name. -/
def nextLine (s : Session) (name : String) : Answer × Session :=
  match s.outboxes.lookup name with
  | some outbox =>
    match s.node.nextLine outbox with
    | (some line, node) => (.line (.done line), { s with node })
    | (none, node) => (.line .waiting, { s with node })
  | none => (.nothing, s)

/-- Does something, without letting runs go on. -/
def perform (s : Session) : Action → Answer × Session
  | .farEnd name event => s.withPeer name fun p =>
    (.nothing, s.setPeer { p with flow := { p.flow with link := p.flow.link.happen event } })
  | .openFlow name => s.openFlow name
  | .openConnection name => s.openConnection name
  | .run name => s.withPeer name fun p => (.nothing, s.run p)
  | .runOnce name => s.withIdle name fun p => s.runOnce p
  | .handshake name => s.withIdle name fun p =>
    let (result, flow) := p.flow.handshake s.node.name
    (.attempt result, s.setPeer { p with flow })
  | .closeFlow name => s.withIdle name fun p =>
    let (result, flow) := p.flow.close
    (match result with
      | .waiting => .attempt .waiting
      | .done () => .nothing,
      s.setPeer { p with flow })
  | .requestClose name => s.withPeer name fun p =>
    if p.handled then
      let flow := p.flow.requestClose
      (.flag (flow.state = .closed), s.setPeer { p with flow })
    else (.nothing, s)
  | .dropFlow name => s.withPeer name fun p =>
    match p.presence with
    | .idle | .connected =>
      (.nothing, s.setPeer { p with flow := p.flow.drop, presence := .gone })
    | _ => (.nothing, s)
  | .disposeConnection name => s.withPeer name fun p =>
    match p.presence with
    | .connected => (.flag true, s.setPeer { p with flow := p.flow.drop })
    | _ => (.nothing, s)
  | .info name => s.withIdle name fun p => (.info (s.infoOf p), s)
  | .typeLine line =>
    match s.node.typeLine line with
    | (some accepted, node) => (.flag accepted, { s with node })
    | (none, node) => (.nothing, { s with node })
  | .endTyping => (.nothing, { s with node := s.node.endTyping })
  | .closeConsole => (.nothing, { s with node := s.node.closeConsole })
  | .cancel =>
    (.nothing,
      { s with
        cancelled := true
        peers := s.peers.map fun p => { p with flow := p.flow.cancel } })
  | .broadcast line =>
    match s.node.broadcast line with
    | (some count, node) => (.count count, { s with node })
    | (none, node) => (.nothing, { s with node })
  | .consume sender line => (.nothing, { s with node := s.node.consume sender line })
  | .openOutbox name => s.openOutbox name
  | .nextLine name => s.nextLine name
  | .closeOutbox name => (.nothing, s.closeOutbox name)

/-- Does something, and lets all runs go on. -/
def act (s : Session) (action : Action) : Answer × Session :=
  let (answer, s) := s.perform action
  (answer, s.settle)

/-- Does things one after the other. -/
def actAll (s : Session) (actions : List Action) : Session :=
  actions.foldl (fun s action => (s.act action).2) s

end Session

end Parley.Chat
