/-!
# The router

A server passes every line to all of its flows. Each flow registers under an
identifier and gets a queue of its own; a broadcast puts a copy of the line into
the queue of every route.

- `Router.register`: adds a subscriber and routes its identifier to it.
- `Router.unregister`: gives the registration of a subscriber up.
- `Router.closeQueue`, `Router.receive`: the subscriber's end of its queue.
- `Router.broadcast`: passes a line to every route.

Routes go by identifier: a later registration under the same identifier takes the
place of the earlier one, and giving either of them up ends the route.
-/

namespace Parley.Chat

/-- The number of a flow. Flows have positive numbers; queues that are opened without a
flow have negative ones. -/
abbrev FlowId := Int

/-- A queue for the lines broadcast to one flow, and the registration it came
with. -/
structure Subscriber where
  id : FlowId
  /-- Whether the registration is still held. -/
  registered : Bool
  /-- The lines not received yet; none once the queue was closed. -/
  queue : Option (List String)

/-- The subscribers, by number, and the routes that lead to them. -/
structure Router where
  subscribers : List Subscriber
  /-- At most one route for each identifier, with the number of its subscriber. -/
  routes : List (FlowId × Nat)

namespace Router

def empty : Router where
  subscribers := []
  routes := []

/-- The number of routes. -/
def size (r : Router) : Nat :=
  r.routes.length

def isEmpty (r : Router) : Bool :=
  r.routes.isEmpty

/-- Whether there is a route for an identifier. -/
def contains (r : Router) (id : FlowId) : Bool :=
  r.routes.any fun route => route.1 == id

/-- Whether a route leads to a subscriber. -/
def leadsTo (r : Router) (number : Nat) : Bool :=
  r.routes.any fun route => route.2 == number

/-- Ends the route for an identifier. -/
def removeRoute (id : FlowId) (r : Router) : Router :=
  { r with routes := r.routes.filter fun route => route.1 != id }

/-- Adds a subscriber, whose number is the result. -/
def register (id : FlowId) (r : Router) : Nat × Router :=
  let number := r.subscribers.length
  (number,
    { subscribers := r.subscribers ++ [⟨id, true, some []⟩]
      routes := (r.removeRoute id).routes ++ [(id, number)] })

/-- Gives a registration up, which ends the route for its identifier. -/
def unregister (number : Nat) (r : Router) : Router :=
  match r.subscribers[number]? with
  | some subscriber =>
    if subscriber.registered then
      { r.removeRoute subscriber.id with
        subscribers := r.subscribers.set number { subscriber with registered := false } }
    else r
  | none => r

/-- Closes the queue of a subscriber. -/
def closeQueue (number : Nat) (r : Router) : Router :=
  { r with subscribers := r.subscribers.modify number fun s => { s with queue := none } }

/-- Appends a line to a queue that is open. -/
def Subscriber.push (line : String) (s : Subscriber) : Subscriber :=
  { s with queue := s.queue.map (· ++ [line]) }

/-- Whether the queue of a subscriber is open. -/
def isOpen (r : Router) (number : Nat) : Bool :=
  (r.subscribers[number]?).any fun s => s.queue.isSome

/-- Passes a line to every route. Yields the number of queues that took it. -/
def broadcast (line : String) (r : Router) : Nat × Router :=
  ((r.routes.filter fun route => r.isOpen route.2).length,
    { r with
      subscribers := r.routes.foldl
        (fun subscribers route => subscribers.modify route.2 (Subscriber.push line))
        r.subscribers })

/-- What looking into a queue comes to. -/
inductive Received where
  | line (text : String)
  /-- There is nothing yet. -/
  | empty
  /-- There is nothing, and no route leads here. -/
  | disconnected
  /-- The queue was closed. -/
  | noQueue

/-- Takes the next line from the queue of a subscriber. -/
def receive (number : Nat) (r : Router) : Received × Router :=
  match r.subscribers[number]? with
  | some ⟨id, registered, some (line :: lines)⟩ =>
    (.line line,
      { r with subscribers := r.subscribers.set number ⟨id, registered, some lines⟩ })
  | some ⟨_, _, some []⟩ => (if r.leadsTo number then .empty else .disconnected, r)
  | _ => (.noQueue, r)

/-- The lines waiting for a subscriber. -/
def pending (r : Router) (number : Nat) : List String :=
  ((r.subscribers[number]?).bind Subscriber.queue).getD []

/-- Replaces the lines waiting for a subscriber. -/
def setPending (number : Nat) (lines : List String) (r : Router) : Router :=
  { r with
    subscribers := r.subscribers.modify number fun s =>
      { s with queue := s.queue.map fun _ => lines } }

end Router

end Parley.Chat
