import Parley.Chat.Session

/-!
# Servers

A server listens at an address, accepts whoever connects, and runs a flow for each.
It binds its address once, and never again; told to stop, it ends all flows and
accepts nobody any more.

- `Server.start`, `Server.stop`: begin and end of listening.
- `Server.connect`: somebody connects.
- `Server.join`: somebody connects and does their part of the handshake.
- `Network`: whether connections are completed at all.
-/

namespace Parley.Chat

open Wire

/-- The network between a server and those who connect to it. -/
inductive Network where
  /-- Connections are completed at once. -/
  | prompt
  /-- Connections are never completed. -/
  | silent
  deriving DecidableEq

/-- A server and those connected to it. -/
structure Server where
  session : Session
  /-- Whether it has an address. -/
  bound : Bool
  /-- Whether it was told to stop. -/
  stopped : Bool

/-- What comes of an attempt to reach a server. -/
inductive Reached (α : Type) where
  /-- Nobody listens. -/
  | refused
  /-- The network does not complete the connection. -/
  | unanswered
  | reached (result : α)

namespace Server

/-- A server that was not started yet. -/
def ofNode (node : Node) : Server where
  session := .ofNode node
  bound := false
  stopped := false

/-- The number of flows that lines are passed to. -/
def routes (s : Server) : Nat :=
  match s.session.node with
  | .server node => node.router.size
  | .client _ => 0

/-- Whether somebody who connects is accepted. -/
def isListening (s : Server) : Bool :=
  s.bound && !s.stopped

/-- Starts listening. A server that has an address keeps it, and nothing else happens. -/
def start (s : Server) : Server :=
  { s with bound := true }

/-- Stops listening and ends all flows. -/
def stop (s : Server) : Server :=
  { s with session := (s.session.act .cancel).2, stopped := true }

/-- Somebody connects, under a name that nobody had before, and a flow begins. -/
def connect (network : Network) (peer : String) (s : Server) : Reached Server :=
  if !s.isListening then .refused
  else
    match network with
    | .silent => .unanswered
    | .prompt => .reached { s with session := s.session.actAll [.openConnection peer, .run peer] }

/-- A payload arrives from somebody connected. -/
def receive (peer : String) (payload : Bytes) (s : Server) : Server :=
  { s with session := (s.session.act (.farEnd peer (.arrive (frameBytes payload)))).2 }

/-- Whether the handshake with somebody is complete. -/
def knows (peer : String) (s : Server) : Bool :=
  (s.session.peer? peer).any fun p => p.flow.isIntroduced

/-- Somebody connects and sends the signature and a name. -/
def join (network : Network) (peer name : String) (s : Server) : Reached Server :=
  match s.connect network peer with
  | .refused => .refused
  | .unanswered => .unanswered
  | .reached s => .reached ((s.receive peer signature).receive peer (Text.Utf8.encode name))

end Server

end Parley.Chat
