import Parley.Chat.Fault
import Parley.Chat.Router
import Parley.Chat.Transform

/-!
# Nodes

A node is one end of the network, and decides two things for each of its flows:
where the lines to send come from, and what is done with lines received. A server
passes every line received to all of its flows; a client sends what is typed and
prints what it receives.

- `Node.openOutbox`: the queue of lines for a flow to send.
- `Node.pending`, `Node.setPending`, `Node.closeOutbox`: the queue while it is used.
- `Node.consume`: takes in a line received.
- `Request`, `Node.serveAll`: what is asked of a node.
-/

namespace Parley.Chat

open Formula (ObjectId)

/-- A server. -/
structure ServerNode where
  name : String
  transform : Transform
  router : Router
  /-- The identifier of the next object that a formula makes. -/
  nextObject : ObjectId
  /-- Where the time of day is read, once for each line received. -/
  clock : Clock

/-- Who has the queue of typed lines. -/
inductive InputHolder where
  | node
  /-- A flow has taken it. -/
  | flow
  /-- The flow that had it has given it up. -/
  | nobody
  deriving DecidableEq

/-- The lines typed at a client. -/
structure TypedLines where
  /-- The lines typed and not sent yet. -/
  lines : List String
  /-- Whether typing has ended. -/
  ended : Bool
  holder : InputHolder

/-- A client. -/
structure ClientNode where
  name : String
  input : TypedLines
  /-- All lines printed. -/
  console : List String
  /-- Whether anybody still reads the console. -/
  consoleOpen : Bool

/-- A node of the network. -/
inductive Node where
  | server (node : ServerNode)
  | client (node : ClientNode)

/-- The queue that a flow sends from: a subscriber of the router, or the typed
lines. -/
inductive Outbox where
  | subscriber (number : Nat)
  | typed

namespace Node

/-- A server to which nobody is connected. -/
def newServer (name : String) (transform : Transform) (nextObject : ObjectId)
    (clock : Clock) : Node :=
  .server { name, transform, router := .empty, nextObject, clock }

/-- A server that evaluates each line as a formula. That formulas are evaluated at all
is checked first, which takes an identifier. -/
def newFormulaServer (name : String) (clock : Clock) : Except Formula.Fault Node :=
  match Formula.selfCheck Formula.Object.firstFreshId with
  | (.ok (), next) => .ok (newServer name .formula next clock)
  | (.error fault, _) => .error fault

/-- A client at which nothing was typed. -/
def newClient (name : String) : Node :=
  .client
    { name
      input := { lines := [], ended := false, holder := .node }
      console := []
      consoleOpen := true }

def name : Node → String
  | .server node => node.name
  | .client node => node.name

/-- Changes the router of a server. -/
def modifyRouter (f : Router → Router) : Node → Node
  | .server node => .server { node with router := f node.router }
  | .client node => .client node

/-- Changes the typed lines of a client. -/
def modifyInput (f : TypedLines → TypedLines) : Node → Node
  | .server node => .server node
  | .client node => .client { node with input := f node.input }

/-! ## Outgoing lines -/

/-- Opens the queue for a flow. The typed lines of a client can be taken once. -/
def openOutbox (id : FlowId) : Node → Except FlowFault Outbox × Node
  | .server node =>
    let (number, router) := node.router.register id
    (.ok (.subscriber number), .server { node with router })
  | .client node =>
    if node.input.holder = .node then
      (.ok .typed, .client { node with input := { node.input with holder := .flow } })
    else (.error .inputUnavailable, .client node)

/-- Gives a queue up. -/
def closeOutbox (outbox : Outbox) (n : Node) : Node :=
  match outbox with
  | .subscriber number => n.modifyRouter fun router => (router.closeQueue number).unregister number
  | .typed => n.modifyInput fun input => { input with lines := [], holder := .nobody }

/-- The lines that wait in a queue. -/
def pending (outbox : Outbox) : Node → List String
  | .server node =>
    match outbox with
    | .subscriber number => node.router.pending number
    | .typed => []
  | .client node =>
    match outbox with
    | .subscriber _ => []
    | .typed => node.input.lines

/-- Whether nothing more can come into a queue. -/
def isEnded (outbox : Outbox) : Node → Bool
  | .server node =>
    match outbox with
    | .subscriber number => !node.router.leadsTo number
    | .typed => true
  | .client node => node.input.ended

/-- Replaces the lines that wait in a queue. -/
def setPending (outbox : Outbox) (lines : List String) (n : Node) : Node :=
  match outbox with
  | .subscriber number => n.modifyRouter fun router => router.setPending number lines
  | .typed => n.modifyInput fun input => { input with lines }

/-- Takes the next line of a queue. It is `none` if there is nothing yet, and
`some none` if nothing more can come. -/
def nextLine (outbox : Outbox) (n : Node) : Option (Option String) × Node :=
  match n.pending outbox with
  | line :: lines => (some (some line), n.setPending outbox lines)
  | [] => (if n.isEnded outbox then some none else none, n)

/-! ## Typing -/

/-- A line is typed. The result is whether the queue took it, or nothing if typing
has ended. -/
def typeLine (line : String) : Node → Option Bool × Node
  | .server node => (none, .server node)
  | .client node =>
    if node.input.ended then (none, .client node)
    else if node.input.holder = .nobody then (some false, .client node)
    else
      (some true,
        .client { node with input := { node.input with lines := node.input.lines ++ [line] } })

/-- Typing ends. -/
def endTyping (n : Node) : Node :=
  n.modifyInput fun input => { input with ended := true }

/-- Nobody reads the console any more. -/
def closeConsole : Node → Node
  | .server node => .server node
  | .client node => .client { node with consoleOpen := false }

/-! ## Incoming lines -/

/-- Passes a line to all flows of a server. Yields the number of queues that took
it. -/
def broadcast (line : String) : Node → Option Nat × Node
  | .server node =>
    let (count, router) := node.router.broadcast line
    (some count, .server { node with router })
  | .client node => (none, .client node)

/-- How a client shows a line. -/
def shownLine (sender line : String) : String :=
  "<" ++ sender ++ ">" ++ line

/-- Takes in a line received from `sender`. -/
def consume (sender line : String) : Node → Node
  | .server node =>
    let (relayed, nextObject) := node.transform.apply node.clock.now node.nextObject sender line
    .server
      { node with
        router := (node.router.broadcast relayed).2
        nextObject
        clock := node.clock.tick }
  | .client node =>
    if node.consoleOpen then
      .client { node with console := node.console ++ [shownLine sender line] }
    else .client node

end Node

/-! ## Requests -/

/-- What is asked of a node, mostly by its flows. -/
inductive Request where
  /-- To open a queue for the flow of this number. -/
  | openOutbox (id : FlowId)
  /-- To leave these lines in a queue, once others were taken from it. -/
  | setPending (outbox : Outbox) (lines : List String)
  | closeOutbox (outbox : Outbox)
  /-- To take in a line received. -/
  | consume (sender line : String)
  /-- To pass a line to all flows; no flow asks for that. -/
  | broadcast (line : String)

namespace Node

/-- Does what is asked. -/
def serve (n : Node) : Request → Node
  | .openOutbox id => (n.openOutbox id).2
  | .setPending outbox lines => n.setPending outbox lines
  | .closeOutbox outbox => n.closeOutbox outbox
  | .consume sender line => n.consume sender line
  | .broadcast line => (n.broadcast line).2

/-- Does all that is asked, in order. -/
def serveAll (n : Node) (requests : List Request) : Node :=
  requests.foldl serve n

end Node

end Parley.Chat
