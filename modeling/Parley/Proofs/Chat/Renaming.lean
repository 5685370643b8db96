import Mathlib.Data.List.Forall2
import Parley.Proofs.Chat.Broadcast

/-!
# Other numbers

What a router, a node or a flow does depends on the numbers of flows only by which of them
are equal. If two nodes differ in these numbers, and what is asked of them does, they still
differ in these numbers only.

- `Matches`: numbers that stand for each other are equal on one side when they are on the
  other.
- `Router.Alike`, `Node.Alike`, `Request.Alike`: routers, nodes and requests that differ in
  numbers only.
- `Node.Alike.serveAll`: alike nodes that serve alike requests stay alike.
- `Flow.withId`: a flow under another number.
- `Flow.alikeRuns_start`, `Flow.alikeRuns_poll`: its runs do not depend on it.
- `Peer.Alike`: peers that differ in the number of their flow only. They take alike turns
  (`Peer.Alike.poll`, `Peer.Alike.run`, `Peer.Alike.runOnce`, `Peer.Alike.abandon`).
-/

namespace Parley.Chat

open Wire

/-- Numbers that stand for each other, each for one other at most. -/
def Matches (R : FlowId → FlowId → Prop) : Prop :=
  ∀ ⦃a b a' b'⦄, R a b → R a' b' → (a = a' ↔ b = b')

section Lists

variable {α β : Type} {S : α → β → Prop} {as : List α} {bs : List β}

theorem forall₂_getElem? (h : List.Forall₂ S as bs) (i : Nat) : Option.Rel S as[i]? bs[i]? := by
  induction h generalizing i with
  | nil => exact .none
  | cons hab _ ih =>
    cases i with
    | zero => exact .some hab
    | succ i => exact ih i

theorem forall₂_modify {f : α → α} {g : β → β} (h : List.Forall₂ S as bs)
    (hfg : ∀ a b, S a b → S (f a) (g b)) (i : Nat) :
    List.Forall₂ S (as.modify i f) (bs.modify i g) := by
  induction h generalizing i with
  | nil =>
    rw [List.modify_nil, List.modify_nil]
    exact .nil
  | cons hab hrest ih =>
    cases i with
    | zero => exact .cons (hfg _ _ hab) hrest
    | succ i => exact .cons hab (ih i)

theorem forall₂_set {a : α} {b : β} (h : List.Forall₂ S as bs) (hab : S a b) (i : Nat) :
    List.Forall₂ S (as.set i a) (bs.set i b) := by
  induction h generalizing i with
  | nil => exact .nil
  | cons hab' hrest ih =>
    cases i with
    | zero => exact .cons hab hrest
    | succ i => exact .cons hab' (ih i)

end Lists

/-! ## Routers -/

/-- Subscribers that differ in their number only. -/
structure Subscriber.Alike (R : FlowId → FlowId → Prop) (s s' : Subscriber) : Prop where
  id : R s.id s'.id
  registered : s'.registered = s.registered
  queue : s'.queue = s.queue

/-- Routes to the same subscriber. -/
structure RoutesAlike (R : FlowId → FlowId → Prop) (route route' : FlowId × Nat) : Prop where
  id : R route.1 route'.1
  number : route'.2 = route.2

/-- Routers that differ in the numbers of flows only. -/
structure Router.Alike (R : FlowId → FlowId → Prop) (r r' : Router) : Prop where
  subscribers : List.Forall₂ (Subscriber.Alike R) r.subscribers r'.subscribers
  routes : List.Forall₂ (RoutesAlike R) r.routes r'.routes

namespace Router.Alike

variable {R R' : FlowId → FlowId → Prop} {r r' : Router} {id id' : FlowId}

theorem empty (R : FlowId → FlowId → Prop) : Router.Alike R .empty .empty := ⟨.nil, .nil⟩

theorem mono (h : r.Alike R r') (hR : ∀ a b, R a b → R' a b) : r.Alike R' r' :=
  ⟨h.subscribers.imp fun _ _ hs => ⟨hR _ _ hs.id, hs.registered, hs.queue⟩,
    h.routes.imp fun _ _ hroute => ⟨hR _ _ hroute.id, hroute.number⟩⟩

theorem size_eq (h : r.Alike R r') : r'.size = r.size :=
  h.routes.length_eq.symm

theorem numbers_eq (h : r.Alike R r') : r'.routes.map Prod.snd = r.routes.map Prod.snd := by
  obtain ⟨-, hroutes⟩ := h
  generalize r.routes = routes, r'.routes = routes' at hroutes ⊢
  induction hroutes with
  | nil => rfl
  | cons hroute _ ih => rw [List.map_cons, List.map_cons, hroute.number, ih]

theorem leadsTo_eq (h : r.Alike R r') (number : Nat) : r'.leadsTo number = r.leadsTo number := by
  have hany : ∀ r : Router, r.leadsTo number = (r.routes.map Prod.snd).any (· == number) := by
    intro r
    rw [List.any_map]
    rfl
  rw [hany, hany, h.numbers_eq]

theorem pending_eq (h : r.Alike R r') (number : Nat) : r'.pending number = r.pending number := by
  have hrel := forall₂_getElem? h.subscribers number
  unfold pending
  generalize r.subscribers[number]? = s, r'.subscribers[number]? = s' at hrel
  cases hrel with
  | none => rfl
  | some hs =>
    rw [Option.bind_some, Option.bind_some, hs.queue]

theorem removeRoute (hR : Matches R) (h : r.Alike R r') (hid : R id id') :
    (r.removeRoute id).Alike R (r'.removeRoute id') := by
  refine ⟨h.subscribers, List.rel_filter (fun route route' hroute => ?_) h.routes⟩
  show (route.1 != id) = true ↔ (route'.1 != id') = true
  rw [bne_iff_ne, bne_iff_ne, Ne, Ne, hR hroute.id hid]

theorem register (hR : Matches R) (h : r.Alike R r') (hid : R id id') :
    (r'.register id').1 = (r.register id).1 ∧
      (r.register id).2.Alike R (r'.register id').2 := by
  have hnumber : r'.subscribers.length = r.subscribers.length := h.subscribers.length_eq.symm
  refine ⟨hnumber, ?_, ?_⟩
  · exact List.rel_append h.subscribers (.cons ⟨hid, rfl, rfl⟩ .nil)
  · exact List.rel_append (h.removeRoute hR hid).routes (.cons ⟨hid, hnumber⟩ .nil)

theorem closeQueue (h : r.Alike R r') (number : Nat) :
    (r.closeQueue number).Alike R (r'.closeQueue number) := by
  have hclosed : ∀ s s' : Subscriber, s.Alike R s' →
      Subscriber.Alike R { s with queue := none } { s' with queue := none } :=
    fun s s' hs => ⟨hs.id, hs.registered, rfl⟩
  exact ⟨forall₂_modify h.subscribers hclosed number, h.routes⟩

theorem setPending (h : r.Alike R r') (number : Nat) (lines : List String) :
    (r.setPending number lines).Alike R (r'.setPending number lines) := by
  have hset : ∀ s s' : Subscriber, s.Alike R s' →
      Subscriber.Alike R { s with queue := s.queue.map fun _ => lines }
        { s' with queue := s'.queue.map fun _ => lines } :=
    fun s s' hs => ⟨hs.id, hs.registered, by rw [hs.queue]⟩
  exact ⟨forall₂_modify h.subscribers hset number, h.routes⟩

theorem unregister (hR : Matches R) (h : r.Alike R r') (number : Nat) :
    (r.unregister number).Alike R (r'.unregister number) := by
  have hrel := forall₂_getElem? h.subscribers number
  unfold Router.unregister
  generalize r.subscribers[number]? = s, r'.subscribers[number]? = s' at hrel
  cases hrel with
  | none => exact h
  | @some s s' hs =>
    dsimp only
    rw [hs.registered]
    split
    case isTrue =>
      have hgiven : Subscriber.Alike R { s with registered := false }
          { s' with registered := false } := ⟨hs.id, rfl, hs.queue⟩
      exact ⟨forall₂_set h.subscribers hgiven number, (h.removeRoute hR hs.id).routes⟩
    case isFalse => exact h

theorem broadcast (h : r.Alike R r') (line : String) :
    (r.broadcast line).2.Alike R (r'.broadcast line).2 := by
  have hpush : ∀ s s' : Subscriber, s.Alike R s' →
      Subscriber.Alike R (Subscriber.push line s) (Subscriber.push line s') :=
    fun s s' hs => ⟨hs.id, hs.registered, congrArg (Option.map (· ++ [line])) hs.queue⟩
  refine ⟨List.rel_foldl (fun subscribers subscribers' hsubscribers route route' hroute => ?_)
    h.subscribers h.routes, h.routes⟩
  rw [hroute.number]
  exact forall₂_modify hsubscribers hpush route.2

/-- As many queues take a line. -/
theorem count_eq (h : r.Alike R r') (line : String) :
    (r'.broadcast line).1 = (r.broadcast line).1 := by
  have hopen : ∀ number, r'.isOpen number = r.isOpen number := by
    intro number
    have hrel := forall₂_getElem? h.subscribers number
    unfold isOpen
    generalize r.subscribers[number]? = s, r'.subscribers[number]? = s' at hrel
    cases hrel with
    | none => rfl
    | some hs => exact congrArg Option.isSome hs.queue
  refine (List.rel_filter (fun route route' hroute => ?_) h.routes).length_eq.symm
  show r.isOpen route.2 = true ↔ r'.isOpen route'.2 = true
  rw [hroute.number, hopen]

end Router.Alike

/-! ## Nodes -/

/-- Servers that differ in the numbers of flows only. -/
inductive Node.Alike (R : FlowId → FlowId → Prop) : Node → Node → Prop
  | server {node : ServerNode} {router : Router} (hrouter : node.router.Alike R router) :
      Node.Alike R (.server node) (.server { node with router })

/-- Requests that differ in the numbers of flows only. -/
inductive Request.Alike (R : FlowId → FlowId → Prop) : Request → Request → Prop
  | openOutbox {id id' : FlowId} (hid : R id id') :
      Request.Alike R (.openOutbox id) (.openOutbox id')
  | same {request : Request} {outbox : Outbox} (habout : request.IsAbout outbox) :
      Request.Alike R request request

namespace Node.Alike

variable {R R' : FlowId → FlowId → Prop} {n n' : Node} {id id' : FlowId}

theorem newServer (R : FlowId → FlowId → Prop) (name : String) (transform : Transform)
    (nextObject : Formula.ObjectId) (clock : Clock) :
    Node.Alike R (.newServer name transform nextObject clock)
      (.newServer name transform nextObject clock) :=
  .server (.empty R)

theorem mono (h : n.Alike R n') (hR : ∀ a b, R a b → R' a b) : n.Alike R' n' := by
  obtain ⟨hrouter⟩ := h
  exact .server (hrouter.mono hR)

theorem name_eq (h : n.Alike R n') : n'.name = n.name := by
  obtain ⟨-⟩ := h
  rfl

theorem router_alike (h : n.Alike R n') : n.router.Alike R n'.router := by
  obtain ⟨hrouter⟩ := h
  exact hrouter

theorem pending_eq (h : n.Alike R n') (outbox : Outbox) : n'.pending outbox = n.pending outbox := by
  obtain ⟨hrouter⟩ := h
  cases outbox with
  | subscriber number => exact hrouter.pending_eq number
  | typed => rfl

theorem isEnded_eq (h : n.Alike R n') (outbox : Outbox) : n'.isEnded outbox = n.isEnded outbox := by
  obtain ⟨hrouter⟩ := h
  cases outbox with
  | subscriber number => exact congrArg not (hrouter.leadsTo_eq number)
  | typed => rfl

theorem openOutbox (hR : Matches R) (h : n.Alike R n') (hid : R id id') :
    (n'.openOutbox id').1 = (n.openOutbox id).1 ∧
      (n.openOutbox id).2.Alike R (n'.openOutbox id').2 := by
  obtain ⟨hrouter⟩ := h
  obtain ⟨hnumber, hregistered⟩ := hrouter.register hR hid
  exact ⟨congrArg (fun number => (.ok (.subscriber number) : Except FlowFault Outbox)) hnumber,
    .server hregistered⟩

theorem setPending (h : n.Alike R n') (outbox : Outbox) (lines : List String) :
    (n.setPending outbox lines).Alike R (n'.setPending outbox lines) := by
  obtain ⟨hrouter⟩ := h
  cases outbox with
  | subscriber number => exact .server (hrouter.setPending number lines)
  | typed => exact .server hrouter

theorem closeOutbox (hR : Matches R) (h : n.Alike R n') (outbox : Outbox) :
    (n.closeOutbox outbox).Alike R (n'.closeOutbox outbox) := by
  obtain ⟨hrouter⟩ := h
  cases outbox with
  | subscriber number => exact .server ((hrouter.closeQueue number).unregister hR number)
  | typed => exact .server hrouter

theorem nextLine (h : n.Alike R n') (outbox : Outbox) :
    (n'.nextLine outbox).1 = (n.nextLine outbox).1 ∧
      (n.nextLine outbox).2.Alike R (n'.nextLine outbox).2 := by
  unfold Node.nextLine
  rw [h.pending_eq, h.isEnded_eq]
  split
  case h_1 line lines _ => exact ⟨rfl, h.setPending outbox lines⟩
  case h_2 => exact ⟨rfl, h⟩

theorem broadcast (h : n.Alike R n') (line : String) :
    (n'.broadcast line).1 = (n.broadcast line).1 ∧
      (n.broadcast line).2.Alike R (n'.broadcast line).2 := by
  obtain ⟨hrouter⟩ := h
  exact ⟨congrArg some (hrouter.count_eq line), .server (hrouter.broadcast line)⟩

theorem typeLine (h : n.Alike R n') (line : String) :
    (n'.typeLine line).1 = (n.typeLine line).1 ∧
      (n.typeLine line).2.Alike R (n'.typeLine line).2 := by
  obtain ⟨hrouter⟩ := h
  exact ⟨rfl, .server hrouter⟩

theorem endTyping (h : n.Alike R n') : n.endTyping.Alike R n'.endTyping := by
  obtain ⟨hrouter⟩ := h
  exact .server hrouter

theorem closeConsole (h : n.Alike R n') : n.closeConsole.Alike R n'.closeConsole := by
  obtain ⟨hrouter⟩ := h
  exact .server hrouter

theorem serve (hR : Matches R) (h : n.Alike R n') {request request' : Request}
    (hrequest : Request.Alike R request request') :
    (n.serve request).Alike R (n'.serve request') := by
  cases hrequest with
  | openOutbox hid => exact (h.openOutbox hR hid).2
  | same habout =>
    cases request with
    | openOutbox => exact habout.elim
    | setPending outbox lines => exact h.setPending outbox lines
    | closeOutbox outbox => exact h.closeOutbox hR outbox
    | consume sender line =>
      obtain ⟨hrouter⟩ := h
      exact .server (hrouter.broadcast _)
    | broadcast line => exact (h.broadcast line).2

/-- Alike nodes that serve alike requests stay alike. -/
theorem serveAll (hR : Matches R) (h : n.Alike R n') {requests requests' : List Request}
    (hrequests : List.Forall₂ (Request.Alike R) requests requests') :
    (n.serveAll requests).Alike R (n'.serveAll requests') := by
  induction hrequests generalizing n n' with
  | nil => exact h
  | cons hrequest _ ih => exact ih (h.serve hR hrequest)

end Node.Alike

/-! ## Flows -/

namespace Flow

/-- The flow under another number. -/
def withId (id : FlowId) (f : Flow) : Flow :=
  { f with id }

variable {f : Flow} (id : FlowId)

theorem shake_withId (name : String) (stage : HandshakeStage) (f : Flow) :
    (f.withId id).shake name stage =
      ((f.shake name stage).1, (f.shake name stage).2.withId id) := by
  have hnames : ∀ (stage : Link.Stage) (f : Flow), (f.withId id).names name stage =
      ((f.names name stage).1, (f.names name stage).2.withId id) := by
    intro stage f
    unfold Flow.names
    rw [show (f.withId id).link = f.link from rfl]
    rcases exchangeNames name stage f.link with ⟨_ | _ | _, link⟩ <;> rfl
  cases stage with
  | names stage => exact hnames stage f
  | signature stage =>
    unfold shake
    dsimp only
    rw [show (f.withId id).link = f.link from rfl]
    rcases exchangeSignature signature stage f.link with ⟨_ | _ | _, link⟩
    · rfl
    · rfl
    · exact hnames .offering { f with link, validated := true }

theorem beginHandshake_withId (name : String) (f : Flow) :
    (f.withId id).beginHandshake name =
      ((f.beginHandshake name).1, (f.beginHandshake name).2.withId id) := by
  unfold beginHandshake
  rw [show (f.withId id).isIntroduced = f.isIntroduced from rfl,
    show (f.withId id).isDisposed = f.isDisposed from rfl]
  split
  · rfl
  · split
    · rfl
    · exact shake_withId id name f.firstStage f

theorem handshake_withId (name : String) (f : Flow) :
    (f.withId id).handshake name = ((f.handshake name).1, (f.handshake name).2.withId id) := by
  unfold handshake
  rw [beginHandshake_withId]
  rcases f.beginHandshake name with ⟨_ | _, f'⟩ <;> rfl

theorem finishClosing_withId (f : Flow) :
    (f.withId id).finishClosing = (f.finishClosing.1, f.finishClosing.2.withId id) := by
  unfold finishClosing
  rw [show (f.withId id).holding = f.holding from rfl, show (f.withId id).link = f.link from rfl]
  split
  · rcases f.link.shutdown with ⟨_ | _, link⟩ <;> rfl
  · rfl

theorem beginClosing_withId (f : Flow) :
    (f.withId id).beginClosing = (f.beginClosing.1, f.beginClosing.2.withId id) :=
  finishClosing_withId id
    { f.cancel with
      state := .closed
      holding := if f.holding = .both then .writer else f.holding }

theorem close_withId (f : Flow) :
    (f.withId id).close = (f.close.1, f.close.2.withId id) := by
  unfold close
  rw [beginClosing_withId]
  rfl

theorem conclude_withId (result : FlowResult) (f : Flow) :
    (f.withId id).conclude result = ((f.conclude result).1, (f.conclude result).2.withId id) := by
  unfold conclude
  rw [beginClosing_withId]
  rcases f.beginClosing with ⟨_ | _, f'⟩ <;> rfl

theorem abandon_withId (phase : Phase) (f : Flow) :
    (f.withId id).abandon phase = ((f.abandon phase).1.withId id, (f.abandon phase).2) := by
  cases phase <;> rfl

/-- A run that is given up keeps its number, and asks to close its own queue at most. -/
theorem alike_abandon {R : FlowId → FlowId → Prop} {id : FlowId} (phase : Phase)
    (hid : R f.id id) : R (f.abandon phase).1.id id ∧
      List.Forall₂ (Request.Alike R) (f.abandon phase).2 (f.abandon phase).2 := by
  cases phase with
  | handshaking | closing => exact ⟨hid, .nil⟩
  | pumping outbox => exact ⟨hid, .cons (.same (show Request.IsAbout outbox _ from rfl)) .nil⟩

/-- Runs of flows that differ in their number only. -/
structure AlikeRuns (R : FlowId → FlowId → Prop) (id : FlowId)
    (result result' : RunProgress × Flow × List Request) : Prop where
  progress : result'.1 = result.1
  flow : result'.2.1 = result.2.1.withId id
  id : R result.2.1.id id
  requests : List.Forall₂ (Request.Alike R) result.2.2 result'.2.2

section Runs

variable {R : FlowId → FlowId → Prop} {n n' : Node} {id}

theorem forall₂_same {requests : List Request} (outbox : Outbox)
    (h : ∀ request ∈ requests, request.IsAbout outbox) :
    List.Forall₂ (Request.Alike R) requests requests :=
  List.forall₂_same.2 fun request hrequest => .same (h request hrequest)

theorem alikeRuns_conclude (result : FlowResult) (hid : R f.id id) :
    AlikeRuns R id ((f.conclude result).1, (f.conclude result).2, [])
      (((f.withId id).conclude result).1, ((f.withId id).conclude result).2, []) := by
  rw [conclude_withId]
  exact ⟨rfl, rfl, (id_conclude result f).symm ▸ hid, .nil⟩

/-- Only the lines in its own queue matter to a flow. -/
theorem converse_withId (id : FlowId) (h : n.Alike R n') (outbox : Outbox) (sending : SendStage)
    (receiving : ReceiveStage) (f : Flow) :
    (f.withId id).converse outbox sending receiving n' =
        ((f.converse outbox sending receiving n).1,
          (f.converse outbox sending receiving n).2.1.withId id,
          (f.converse outbox sending receiving n).2.2) ∧
      (f.converse outbox sending receiving n).2.1.id = f.id ∧
      ∀ request ∈ (f.converse outbox sending receiving n).2.2, request.IsAbout outbox := by
  unfold converse
  rw [show (f.withId id).cancelled = f.cancelled from rfl,
    show (f.withId id).link = f.link from rfl, h.pending_eq outbox, h.isEnded_eq outbox]
  split
  · exact ⟨rfl, rfl, fun request hrequest => nomatch hrequest⟩
  · rcases pumpOut (n.isEnded outbox) sending (n.pending outbox) f.link with
      ⟨sending' | result, left, link⟩
    · dsimp only
      rcases pumpIn receiving link with ⟨receiving' | result, heard, link'⟩
      · exact ⟨rfl, rfl, isAbout_converse outbox left heard f⟩
      · exact ⟨rfl, rfl, isAbout_converse outbox left heard f⟩
    · exact ⟨rfl, rfl, isAbout_converse outbox left [] f⟩

theorem alikeRuns_pump (h : n.Alike R n') (hid : R f.id id) (outbox : Outbox)
    (sending : SendStage) (receiving : ReceiveStage) :
    AlikeRuns R id (f.pump outbox sending receiving n)
      ((f.withId id).pump outbox sending receiving n') := by
  obtain ⟨hconverse, hsame, habout⟩ := converse_withId id h outbox sending receiving f
  unfold pump
  rw [hconverse]
  generalize f.converse outbox sending receiving n = result at hsame habout
  replace hid : R result.2.1.id id := hsame.symm ▸ hid
  obtain ⟨phase | result, f', requests⟩ := result
  · exact ⟨rfl, rfl, hid, forall₂_same outbox habout⟩
  · dsimp only
    rw [conclude_withId]
    refine ⟨rfl, rfl, (id_conclude result f').symm ▸ hid, forall₂_same outbox ?_⟩
    intro request hrequest
    obtain hrequest | hrequest := List.mem_append.1 hrequest
    · exact habout request hrequest
    · rw [List.mem_singleton.1 hrequest]
      exact rfl

theorem alikeRuns_activate (hR : Matches R) (h : n.Alike R n') (hid : R f.id id) :
    AlikeRuns R id (f.activate n) ((f.withId id).activate n') := by
  obtain ⟨houtbox, hopened⟩ := h.openOutbox hR hid
  unfold activate
  dsimp only
  rw [show (f.withId id).id = id from rfl]
  generalize n.openOutbox f.id = opened, n'.openOutbox id = opened' at houtbox hopened
  obtain ⟨fault | outbox, n₁⟩ := opened
  · obtain ⟨_, n₁'⟩ := opened'
    obtain rfl := houtbox
    have hactive : R (Flow.id { f with state := .active }) id := hid
    have hconcludes := alikeRuns_conclude (.error fault) hactive
    exact ⟨hconcludes.progress, hconcludes.flow, hconcludes.id, .cons (.openOutbox hid) .nil⟩
  · obtain ⟨_, n₁'⟩ := opened'
    obtain rfl := houtbox
    have hactive : R (Flow.id { f with state := .active }) id := hid
    have hpumps := alikeRuns_pump hopened hactive outbox .idle .probing
    exact ⟨hpumps.progress, hpumps.flow, hpumps.id, .cons (.openOutbox hid) hpumps.requests⟩

theorem alikeRuns_afterHandshake (hR : Matches R) (h : n.Alike R n') (hid : R f.id id)
    (progress : HandshakeProgress) :
    AlikeRuns R id (f.afterHandshake progress n) ((f.withId id).afterHandshake progress n') := by
  match progress with
  | .waiting stage => exact ⟨rfl, rfl, hid, .nil⟩
  | .finished (.ok ()) => exact alikeRuns_activate hR h hid
  | .finished (.error fault) => exact alikeRuns_conclude (.error fault) hid

theorem alikeRuns_start (hR : Matches R) (h : n.Alike R n') (hid : R f.id id) :
    AlikeRuns R id (f.start n) ((f.withId id).start n') := by
  unfold start
  rw [show (f.withId id).state = f.state from rfl]
  split
  · dsimp only
    rw [show (f.withId id).cancelled = f.cancelled from rfl]
    split
    · have hbegun : R (Flow.id { f with state := .handshaking }) id := hid
      exact alikeRuns_conclude (.ok ()) hbegun
    · let begun : Flow := { f with state := .handshaking }
      have hsame := sameLife_beginHandshake n.name begun
      have hgoesOn : AlikeRuns R id
          ((begun.beginHandshake n.name).2.afterHandshake (begun.beginHandshake n.name).1 n)
          (((begun.withId id).beginHandshake n'.name).2.afterHandshake
            ((begun.withId id).beginHandshake n'.name).1 n') := by
        rw [h.name_eq, beginHandshake_withId]
        exact alikeRuns_afterHandshake hR h (hsame.id ▸ hid) _
      exact hgoesOn
  · exact ⟨rfl, rfl, hid, .nil⟩
  · exact ⟨rfl, rfl, hid, .nil⟩

theorem alikeRuns_poll (hR : Matches R) (h : n.Alike R n') (hid : R f.id id) (phase : Phase) :
    AlikeRuns R id (f.poll phase n) ((f.withId id).poll phase n') := by
  cases phase with
  | handshaking stage =>
    rw [poll, poll, pollHandshake, pollHandshake,
      show (f.withId id).cancelled = f.cancelled from rfl]
    split
    · exact alikeRuns_conclude (.ok ()) hid
    · have hsame := sameLife_shake n.name stage f
      rw [h.name_eq, shake_withId]
      generalize f.shake n.name stage = result at hsame
      exact alikeRuns_afterHandshake hR h (hsame.id ▸ hid) result.1
  | pumping outbox sending receiving => exact alikeRuns_pump h hid outbox sending receiving
  | closing result =>
    have hsame : f.finishClosing.2.id = f.id := by
      unfold finishClosing
      split
      · rcases f.link.shutdown with ⟨_ | _, link⟩ <;> rfl
      · rfl
    rw [poll, poll, finishClosing_withId]
    generalize f.finishClosing = closing at hsame
    obtain ⟨_ | _, f'⟩ := closing <;> exact ⟨rfl, rfl, hsame.symm ▸ hid, .nil⟩

end Runs

end Flow

/-! ## Peers -/

namespace Peer

/-- The peer with its flow under another number. -/
def withId (id : FlowId) (p : Peer) : Peer :=
  { p with flow := p.flow.withId id }

/-- Peers that differ in the number of their flow only. -/
inductive Alike (R : FlowId → FlowId → Prop) (p : Peer) : Peer → Prop
  | withId {id : FlowId} (hid : R p.flow.id id) : Alike R p (p.withId id)

/-- What becomes of peers that differ in numbers only, and what their flows ask for. -/
structure AlikeTurns (R : FlowId → FlowId → Prop) (result result' : Peer × List Request) :
    Prop where
  peer : result.1.Alike R result'.1
  requests : List.Forall₂ (Request.Alike R) result.2 result'.2

variable {R R' : FlowId → FlowId → Prop} {n n' : Node} {p q : Peer} {id : FlowId}

namespace Alike

theorem mono (h : p.Alike R q) (hR : ∀ a b, R a b → R' a b) : p.Alike R' q := by
  obtain ⟨hid⟩ := h
  exact .withId (hR _ _ hid)

theorem name_eq (h : p.Alike R q) : q.name = p.name := by
  obtain ⟨-⟩ := h
  rfl

theorem presence_eq (h : p.Alike R q) : q.presence = p.presence := by
  obtain ⟨-⟩ := h
  rfl

theorem handled_eq (h : p.Alike R q) : q.handled = p.handled := by
  obtain ⟨-⟩ := h
  rfl

theorem isDisposed_eq (h : p.Alike R q) : q.flow.isDisposed = p.flow.isDisposed := by
  obtain ⟨-⟩ := h
  rfl

theorem isUnnumbered_eq (h : p.Alike R q) : q.isUnnumbered = p.isUnnumbered := by
  obtain ⟨-⟩ := h
  rfl

theorem alikeTurns (h : p.Alike R q) : AlikeTurns R (p, []) (q, []) :=
  ⟨h, .nil⟩

end Alike

theorem isUnnumbered_of_connected (h : p.presence = .connected)
    (hopen : p.flow.isDisposed = false) : p.isUnnumbered = true := by
  unfold isUnnumbered
  rw [h, hopen]
  rfl

theorem afterRun_withId (result : FlowResult) (p : Peer) (id : FlowId) :
    (p.withId id).afterRun result = (p.afterRun result).withId id := by
  unfold afterRun
  rw [show (p.withId id).handled = p.handled from rfl]
  split <;> rfl

theorem settle_withId (progress : Flow.RunProgress) (flow : Flow) (id id' : FlowId) :
    (p.withId id).settle progress (flow.withId id') = (p.settle progress flow).withId id' := by
  cases progress with
  | waiting phase => rfl
  | finished result => exact afterRun_withId result { p with flow } id'

/-- Alike runs leave alike peers. -/
theorem alikeTurns_settle {result result' : Flow.RunProgress × Flow × List Request}
    (h : Flow.AlikeRuns R id result result') (p : Peer) (id' : FlowId) :
    AlikeTurns R (p.settle result.1 result.2.1, result.2.2)
      ((p.withId id').settle result'.1 result'.2.1, result'.2.2) := by
  refine ⟨?_, h.requests⟩
  show (p.settle result.1 result.2.1).Alike R ((p.withId id').settle result'.1 result'.2.1)
  rw [h.progress, h.flow, settle_withId]
  exact .withId ((id_settle ..).symm ▸ h.id)

namespace Alike

theorem afterRun (h : p.Alike R q) (result : FlowResult) :
    (p.afterRun result).Alike R (q.afterRun result) := by
  obtain ⟨hid⟩ := h
  rw [afterRun_withId]
  exact .withId ((p.persists_afterRun result).id.symm ▸ hid)

theorem start (hR : Matches R) (hn : n.Alike R n') (h : p.Alike R q) :
    AlikeTurns R (p.start n) (q.start n') := by
  obtain @⟨id, hid⟩ := h
  exact alikeTurns_settle (Flow.alikeRuns_start hR hn hid) p id

theorem poll (hR : Matches R) (hn : n.Alike R n') (h : p.Alike R q) :
    AlikeTurns R (p.poll n) (q.poll n') := by
  have hstays := h.alikeTurns
  obtain @⟨id, hid⟩ := h
  unfold Peer.poll
  rw [show (p.withId id).presence = p.presence from rfl]
  split
  case h_1 phase _ => exact alikeTurns_settle (Flow.alikeRuns_poll hR hn hid phase) p id
  case h_2 => exact hstays

/-- Connections that become flows get numbers that stand for each other. -/
theorem run {next next' : FlowId} (hR : Matches R) (hn : n.Alike R n') (h : p.Alike R q)
    (halted : Bool) (hnext : p.isUnnumbered = true → R next next') :
    AlikeTurns R (p.run next halted n) (q.run next' halted n') := by
  cases hpresence : p.presence with
  | idle =>
    rw [run_of_idle hpresence, run_of_idle (h.presence_eq.trans hpresence)]
    exact h.start hR hn
  | connected =>
    have hpresence' := h.presence_eq.trans hpresence
    cases hdisposed : p.flow.isDisposed with
    | true =>
      rw [run_of_disposed hpresence hdisposed,
        run_of_disposed hpresence' (h.isDisposed_eq.trans hdisposed)]
      exact (h.afterRun (.error .disposed)).alikeTurns
    | false =>
      have hnumber : R next next' := hnext (isUnnumbered_of_connected hpresence hdisposed)
      rw [run_of_connected hpresence hdisposed,
        run_of_connected hpresence' (h.isDisposed_eq.trans hdisposed)]
      have hfresh : Peer.Alike R { p with flow := { p.flow with id := next, cancelled := halted } }
          { q with flow := { q.flow with id := next', cancelled := halted } } := by
        obtain ⟨-⟩ := h
        exact .withId hnumber
      exact hfresh.start hR hn
  | running | gone =>
    have hidle : p.presence ≠ .idle := by rw [hpresence]; exact Presence.noConfusion
    have hconnected : p.presence ≠ .connected := by rw [hpresence]; exact Presence.noConfusion
    rw [run_of_busy hidle hconnected,
      run_of_busy (h.presence_eq.symm ▸ hidle) (h.presence_eq.symm ▸ hconnected)]
    exact h.alikeTurns

theorem runOnce (hR : Matches R) (hn : n.Alike R n') (h : p.Alike R q) :
    (q.runOnce n').1 = (p.runOnce n).1 ∧ AlikeTurns R (p.runOnce n).2 (q.runOnce n').2 := by
  obtain @⟨id, hid⟩ := h
  have hruns := Flow.alikeRuns_start hR hn hid
  unfold Peer.runOnce
  rw [show (p.withId id).flow = p.flow.withId id from rfl]
  generalize p.flow.start n = result, (p.flow.withId id).start n' = result' at hruns
  obtain ⟨progress, flow, requests⟩ := result
  obtain ⟨progress', flow', requests'⟩ := result'
  obtain ⟨hprogress, hflow, hid', hrequests⟩ := hruns
  dsimp only at hprogress hflow hid' hrequests
  subst hprogress hflow
  cases progress' with
  | finished result => exact ⟨rfl, .withId hid', hrequests⟩
  | waiting phase =>
    obtain ⟨hid'', hmore⟩ := Flow.alike_abandon phase hid'
    dsimp only
    rw [Flow.abandon_withId]
    exact ⟨rfl, .withId hid'', List.rel_append hrequests hmore⟩

theorem abandon (h : p.Alike R q) : AlikeTurns R p.abandon q.abandon := by
  have hstays := h.alikeTurns
  obtain @⟨id, hid⟩ := h
  unfold Peer.abandon
  rw [show (p.withId id).presence = p.presence from rfl]
  split
  case h_1 phase _ =>
    obtain ⟨hid', hrequests⟩ := Flow.alike_abandon phase hid
    rw [show (p.withId id).flow = p.flow.withId id from rfl, Flow.abandon_withId,
      show (p.withId id).handled = p.handled from rfl]
    dsimp only
    split
    · exact ⟨.withId hid', hrequests⟩
    · exact ⟨.withId hid', hrequests⟩
  case h_2 => exact hstays

end Alike

end Peer

end Parley.Chat
