import Mathlib.Data.List.Nodup
import Parley.Chat.Node

/-!
# Routes

A server relays each line to the flows that have a route at that moment. What one flow
asks of the server does not touch the routes and queues of the others.

- `Router.WellFormed`: every route has an identifier and a subscriber of its own.
- `Router.Serves`: a route with the lines that wait in its queue.
- `Relay`, `Node.relays`: what is relayed when the server does what a flow asks.
- `Node.serves_serveAll`, `Node.unrouted_serveAll`: what other flows ask puts the lines
  relayed behind those that wait, and opens or ends no route of this flow.
-/

namespace Parley.Chat

namespace Router

/-- The flows that have a route. -/
def ids (r : Router) : List FlowId :=
  r.routes.map Prod.fst

/-- The identifier under which a subscriber was registered. -/
def idOf (r : Router) (number : Nat) : Option FlowId :=
  (r.subscribers[number]?).map Subscriber.id

/-- No two routes share an identifier, and each leads to a subscriber that was
registered under it. -/
structure WellFormed (r : Router) : Prop where
  nodup : r.ids.Nodup
  leads : ∀ route ∈ r.routes, r.idOf route.2 = some route.1

/-- A flow has a route to a subscriber in whose queue these lines wait. -/
structure Serves (r : Router) (id : FlowId) (number : Nat) (lines : List String) : Prop where
  route : (id, number) ∈ r.routes
  subscriber : r.subscribers[number]? = some ⟨id, true, some lines⟩

variable {r : Router} {id id' : FlowId} {number number' : Nat} {lines : List String}

namespace Serves

theorem mem_ids (h : r.Serves id number lines) : id ∈ r.ids := List.mem_map_of_mem h.route

theorem idOf_eq (h : r.Serves id number lines) : r.idOf number = some id := by
  rw [idOf, h.subscriber]
  rfl

theorem pending_eq (h : r.Serves id number lines) : r.pending number = lines := by
  rw [pending, h.subscriber]
  rfl

theorem leadsTo (h : r.Serves id number lines) : r.leadsTo number = true :=
  List.any_eq_true.2 ⟨(id, number), h.route, beq_self_eq_true number⟩

/-- The subscriber of another flow is another one. -/
theorem number_ne (h : r.Serves id number lines) (hother : r.idOf number' = some id')
    (hne : id ≠ id') : number' ≠ number := by
  rintro rfl
  rw [h.idOf_eq] at hother
  exact hne (Option.some.inj hother)

end Serves

theorem wellFormed_empty : empty.WellFormed where
  nodup := List.nodup_nil
  leads := List.forall_mem_nil _

theorem WellFormed.numbers_nodup (h : r.WellFormed) : (r.routes.map Prod.snd).Nodup := by
  refine (List.Nodup.of_map _ h.nodup).map_on ?_
  intro a ha b hb heq
  have hid : some a.1 = some b.1 := by
    rw [← h.leads a ha, ← h.leads b hb, heq]
  exact Prod.ext (Option.some.inj hid) heq

/-! ### Registration -/

theorem mem_removeRoute {route : FlowId × Nat} :
    route ∈ (r.removeRoute id).routes ↔ route ∈ r.routes ∧ route.1 ≠ id := by
  simp [removeRoute]

theorem idOf_register (h : r.idOf number = some id') :
    (r.register id).2.idOf number = some id' := by
  obtain ⟨sub, hsub, hid⟩ := Option.map_eq_some_iff.1 h
  show ((r.subscribers ++ _)[number]?).map _ = _
  rw [List.getElem?_append_left (List.getElem?_eq_some_iff.1 hsub).1]
  exact h

theorem WellFormed.register (h : r.WellFormed) (id : FlowId) :
    (r.register id).2.WellFormed where
  nodup := by
    show ((r.removeRoute id).routes ++ [_]).map Prod.fst |>.Nodup
    rw [List.map_append]
    refine List.nodup_append.2 ⟨?_, List.nodup_singleton _, ?_⟩
    · exact h.nodup.sublist (List.Sublist.map _ List.filter_sublist)
    · intro a ha b hb heq
      obtain ⟨route, hroute, rfl⟩ := List.mem_map.1 ha
      rw [List.map_singleton, List.mem_singleton] at hb
      exact (mem_removeRoute.1 hroute).2 (heq.trans hb)
  leads route hroute := by
    rcases List.mem_append.1 hroute with hroute | hroute
    · exact idOf_register (h.leads route (mem_removeRoute.1 hroute).1)
    · rw [List.mem_singleton] at hroute
      subst hroute
      show ((r.subscribers ++ _)[r.subscribers.length]?).map _ = _
      rw [List.getElem?_concat_length]
      rfl

/-- Whoever registers has a route and an empty queue. -/
theorem serves_register (r : Router) (id : FlowId) :
    (r.register id).2.Serves id (r.register id).1 [] where
  route := List.mem_append_right _ (List.mem_singleton.2 rfl)
  subscriber := List.getElem?_concat_length

theorem Serves.register (h : r.Serves id number lines) (hne : id ≠ id') :
    (r.register id').2.Serves id number lines where
  route := List.mem_append_left _ (mem_removeRoute.2 ⟨h.route, hne⟩)
  subscriber := by
    show (r.subscribers ++ _)[number]? = _
    rw [List.getElem?_append_left (List.getElem?_eq_some_iff.1 h.subscriber).1]
    exact h.subscriber

theorem notMem_ids_register (h : id ∉ r.ids) (hne : id ≠ id') : id ∉ (r.register id').2.ids := by
  intro hmem
  obtain ⟨route, hroute, rfl⟩ := List.mem_map.1 hmem
  rcases List.mem_append.1 hroute with hroute | hroute
  · exact h (List.mem_map_of_mem (mem_removeRoute.1 hroute).1)
  · rw [List.mem_singleton] at hroute
    exact hne (congrArg Prod.fst hroute)

/-! ### Queues -/

theorem idOf_modify (r : Router) (f : Subscriber → Subscriber) (hf : ∀ s, (f s).id = s.id)
    (number' number : Nat) :
    ((r.subscribers.modify number' f)[number]?).map Subscriber.id = r.idOf number := by
  rw [List.getElem?_modify, idOf]
  cases r.subscribers[number]? with
  | none => rfl
  | some s =>
    show some (if number' = number then f s else s).id = some s.id
    split
    · rw [hf]
    · rfl

theorem idOf_setPending (number : Nat) :
    (r.setPending number' lines).idOf number = r.idOf number :=
  r.idOf_modify _ (fun _ => by rfl) number' number

theorem idOf_closeQueue (number : Nat) : (r.closeQueue number').idOf number = r.idOf number :=
  r.idOf_modify _ (fun _ => by rfl) number' number

theorem WellFormed.of_idOf_eq {r' : Router} (h : r.WellFormed)
    (hroutes : r'.routes.Sublist r.routes) (hid : ∀ number, r'.idOf number = r.idOf number) :
    r'.WellFormed where
  nodup := h.nodup.sublist (hroutes.map _)
  leads route hroute := (hid route.2).trans (h.leads route (hroutes.subset hroute))

theorem Serves.setPending (h : r.Serves id number lines) (lines' : List String) :
    (r.setPending number lines').Serves id number lines' where
  route := h.route
  subscriber := by
    show (r.subscribers.modify number _)[number]? = _
    rw [List.getElem?_modify_eq, h.subscriber]
    rfl

theorem Serves.setPending_of_ne (h : r.Serves id number lines) (hne : number' ≠ number)
    (lines' : List String) : (r.setPending number' lines').Serves id number lines where
  route := h.route
  subscriber := by
    show (r.subscribers.modify number' _)[number]? = _
    rw [List.getElem?_modify_ne _ _ hne]
    exact h.subscriber

/-! ### Giving a queue up -/

/-- Closes a queue and gives its registration up. -/
def leave (number : Nat) (r : Router) : Router :=
  (r.closeQueue number).unregister number

theorem unregister_cases (number : Nat) (r : Router) :
    r.unregister number = r ∨
      ∃ sub, r.subscribers[number]? = some sub ∧ sub.registered = true ∧
        r.unregister number =
          { r.removeRoute sub.id with
            subscribers := r.subscribers.set number { sub with registered := false } } := by
  unfold unregister
  split
  case h_1 sub hsub =>
    split
    case isTrue hregistered => exact .inr ⟨sub, hsub, hregistered, rfl⟩
    case isFalse => exact .inl rfl
  case h_2 => exact .inl rfl

theorem idOf_unregister (number' : Nat) : (r.unregister number').idOf number = r.idOf number := by
  rcases unregister_cases number' r with heq | ⟨sub, hsub, -, heq⟩
  · rw [heq]
  · rw [heq, idOf, idOf, List.getElem?_set]
    split
    case isTrue hnumber =>
      subst hnumber
      rw [if_pos (List.getElem?_eq_some_iff.1 hsub).1, hsub]
      rfl
    case isFalse => rfl

theorem routes_unregister_sublist (number : Nat) (r : Router) :
    (r.unregister number).routes.Sublist r.routes := by
  rcases unregister_cases number r with heq | ⟨sub, -, -, heq⟩
  · rw [heq]
  · rw [heq]
    exact List.filter_sublist

theorem idOf_leave (number' : Nat) : (r.leave number').idOf number = r.idOf number :=
  (idOf_unregister number').trans (idOf_closeQueue number)

theorem WellFormed.leave (h : r.WellFormed) (number : Nat) : (r.leave number).WellFormed :=
  h.of_idOf_eq (routes_unregister_sublist number _) fun _ => idOf_leave number

/-- Leaving ends the route. -/
theorem Serves.notMem_ids_leave (h : r.Serves id number lines) : id ∉ (r.leave number).ids := by
  have hsub : (r.closeQueue number).subscribers[number]? = some ⟨id, true, none⟩ := by
    show (r.subscribers.modify number _)[number]? = _
    rw [List.getElem?_modify_eq, h.subscriber]
    rfl
  have heq : (r.leave number).routes = ((r.closeQueue number).removeRoute id).routes := by
    unfold Router.leave unregister
    rw [hsub]
    rfl
  intro hmem
  obtain ⟨route, hroute, rfl⟩ := List.mem_map.1 hmem
  rw [heq] at hroute
  exact (mem_removeRoute.1 hroute).2 rfl

theorem Serves.leave_of_ne (h : r.Serves id number lines) (hother : r.idOf number' = some id')
    (hne : id ≠ id') : (r.leave number').Serves id number lines := by
  have hnumber := h.number_ne hother hne
  have hopen : (r.closeQueue number').subscribers[number]? = some ⟨id, true, some lines⟩ := by
    show (r.subscribers.modify number' _)[number]? = _
    rw [List.getElem?_modify_ne _ _ hnumber]
    exact h.subscriber
  rcases unregister_cases number' (r.closeQueue number') with heq | ⟨sub, hsub, -, heq⟩
  · rw [leave, heq]
    exact ⟨h.route, hopen⟩
  · have hid : sub.id = id' := by
      have hother' : (r.closeQueue number').idOf number' = some id' :=
        (idOf_closeQueue number').trans hother
      rw [idOf, hsub] at hother'
      exact Option.some.inj hother'
    rw [leave, heq]
    refine ⟨mem_removeRoute.2 ⟨h.route, hid ▸ hne⟩, ?_⟩
    show ((r.closeQueue number').subscribers.set number' _)[number]? = _
    rw [List.getElem?_set_ne hnumber]
    exact hopen

theorem notMem_ids_leave (h : id ∉ r.ids) (number : Nat) : id ∉ (r.leave number).ids := by
  intro hmem
  have hsub : (r.leave number).ids.Sublist r.ids :=
    (routes_unregister_sublist number (r.closeQueue number)).map Prod.fst
  exact h (hsub.subset hmem)

/-! ### Broadcasts -/

/-- Puts a line into the queues of subscribers, given by number. -/
def pushAll (line : String) (numbers : List Nat) (subscribers : List Subscriber) :
    List Subscriber :=
  numbers.foldl (fun subscribers number => subscribers.modify number (Subscriber.push line))
    subscribers

theorem subscribers_broadcast (line : String) (r : Router) :
    (r.broadcast line).2.subscribers = pushAll line (r.routes.map Prod.snd) r.subscribers := by
  rw [pushAll, List.foldl_map]
  rfl

theorem getElem?_pushAll_of_notMem {line : String} {numbers : List Nat}
    {subscribers : List Subscriber} (h : number ∉ numbers) :
    (pushAll line numbers subscribers)[number]? = subscribers[number]? := by
  induction numbers generalizing subscribers with
  | nil => rfl
  | cons first numbers ih =>
    rw [List.mem_cons, not_or] at h
    show (pushAll line numbers (subscribers.modify first _))[number]? = _
    rw [ih h.2, List.getElem?_modify_ne _ _ (Ne.symm h.1)]

/-- With every number only once, each subscriber gets the line once. -/
theorem getElem?_pushAll_of_mem {line : String} {numbers : List Nat}
    {subscribers : List Subscriber} (hnodup : numbers.Nodup) (h : number ∈ numbers) :
    (pushAll line numbers subscribers)[number]? =
      (subscribers[number]?).map (Subscriber.push line) := by
  induction numbers generalizing subscribers with
  | nil => cases h
  | cons first numbers ih =>
    obtain ⟨hfirst, hrest⟩ := List.nodup_cons.1 hnodup
    show (pushAll line numbers (subscribers.modify first _))[number]? = _
    rcases List.mem_cons.1 h with rfl | h
    · rw [getElem?_pushAll_of_notMem hfirst, List.getElem?_modify_eq]
      rfl
    · have hne : first ≠ number := fun heq => hfirst (heq ▸ h)
      rw [ih hrest h, List.getElem?_modify_ne _ _ hne]

theorem idOf_broadcast (line : String) (r : Router) (number : Nat) :
    (r.broadcast line).2.idOf number = r.idOf number := by
  rw [idOf, subscribers_broadcast, idOf]
  generalize r.routes.map Prod.snd = numbers, r.subscribers = subscribers
  induction numbers generalizing subscribers with
  | nil => rfl
  | cons first numbers ih =>
    show ((pushAll line numbers (subscribers.modify first _))[number]?).map _ = _
    rw [ih]
    exact idOf_modify ⟨subscribers, []⟩ _ (fun _ => by rfl) first number

theorem WellFormed.broadcast (h : r.WellFormed) (line : String) :
    (r.broadcast line).2.WellFormed :=
  h.of_idOf_eq (List.Sublist.refl r.routes) fun number => idOf_broadcast line r number

/-- A line that is broadcast goes behind those that wait. -/
theorem Serves.broadcast (h : r.Serves id number lines) (hr : r.WellFormed) (line : String) :
    (r.broadcast line).2.Serves id number (lines ++ [line]) where
  route := h.route
  subscriber := by
    rw [subscribers_broadcast,
      getElem?_pushAll_of_mem hr.numbers_nodup (List.mem_map_of_mem h.route), h.subscriber]
    rfl

end Router

/-! ## Relays -/

/-- A line passed on to all flows that have a route, and those flows. -/
structure Relay where
  line : String
  ids : List FlowId

namespace Node

/-- The routes of a node; a client has none. -/
def router : Node → Router
  | .server node => node.router
  | .client _ => .empty

/-- What is relayed when the node does what it is asked: a line that is broadcast, or what
the transform makes of a line received. -/
def relays : Node → Request → List Relay
  | .server node, .consume sender line =>
    [⟨(node.transform.apply node.clock.now node.nextObject sender line).1, node.router.ids⟩]
  | .server node, .broadcast line => [⟨line, node.router.ids⟩]
  | _, _ => []

/-- What is relayed when the node does all that it is asked. -/
def relaysAll (n : Node) : List Request → List Relay
  | [] => []
  | request :: requests => n.relays request ++ (n.serve request).relaysAll requests

@[simp] theorem serveAll_nil (n : Node) : n.serveAll [] = n := rfl

@[simp] theorem serveAll_cons (n : Node) (request : Request) (requests : List Request) :
    n.serveAll (request :: requests) = (n.serve request).serveAll requests :=
  rfl

theorem serveAll_append (n : Node) (requests more : List Request) :
    n.serveAll (requests ++ more) = (n.serveAll requests).serveAll more :=
  List.foldl_append

@[simp] theorem relaysAll_nil (n : Node) : n.relaysAll [] = [] := rfl

@[simp] theorem relaysAll_cons (n : Node) (request : Request) (requests : List Request) :
    n.relaysAll (request :: requests) = n.relays request ++ (n.serve request).relaysAll requests :=
  rfl

/-- Nothing is relayed when a queue is opened, used or given up. -/
@[simp] theorem relays_openOutbox (n : Node) (id : FlowId) : n.relays (.openOutbox id) = [] := by
  cases n <;> rfl

@[simp] theorem relays_setPending (n : Node) (outbox : Outbox) (lines : List String) :
    n.relays (.setPending outbox lines) = [] := by
  cases n <;> rfl

@[simp] theorem relays_closeOutbox (n : Node) (outbox : Outbox) :
    n.relays (.closeOutbox outbox) = [] := by
  cases n <;> rfl

theorem relaysAll_append (n : Node) (requests more : List Request) :
    n.relaysAll (requests ++ more) =
      n.relaysAll requests ++ (n.serveAll requests).relaysAll more := by
  induction requests generalizing n with
  | nil => rfl
  | cons request requests ih =>
    rw [List.cons_append, relaysAll_cons, relaysAll_cons, serveAll_cons, ih, List.append_assoc]

end Node

/-- A request that does not concern the queue of a flow. -/
def Request.Spares (n : Node) (id : FlowId) : Request → Prop
  | .openOutbox id' => id ≠ id'
  | .setPending (.subscriber number) _ | .closeOutbox (.subscriber number) =>
    ∃ owner, n.router.idOf number = some owner ∧ id ≠ owner
  | .setPending .typed _ | .closeOutbox .typed | .consume _ _ | .broadcast _ => True

namespace Node

variable {n : Node} {id id' : FlowId} {number : Nat} {lines : List String} {request : Request}
  {requests : List Request}

/-- A client never has routes. -/
theorem router_serve_client (node : ClientNode) (request : Request) :
    ((Node.client node).serve request).router = .empty := by
  rcases request with id | ⟨_ | _, _⟩ | ⟨_ | _⟩ | ⟨sender, line⟩ | line
  · simp only [serve, openOutbox]
    split <;> rfl
  · rfl
  · rfl
  · rfl
  · rfl
  · simp only [serve, consume]
    split <;> rfl
  · rfl

theorem wellFormed_serve (h : n.router.WellFormed) (request : Request) :
    (n.serve request).router.WellFormed := by
  cases n with
  | client node =>
    rw [router_serve_client]
    exact Router.wellFormed_empty
  | server node =>
    rcases request with id | ⟨k | _, pending⟩ | ⟨k | _⟩ | ⟨sender, line⟩ | line
    · exact Router.WellFormed.register h id
    · exact Router.WellFormed.of_idOf_eq h (List.Sublist.refl _) fun _ => Router.idOf_setPending _
    · exact h
    · exact Router.WellFormed.leave h k
    · exact h
    · exact Router.WellFormed.broadcast h _
    · exact Router.WellFormed.broadcast h line

theorem wellFormed_serveAll (h : n.router.WellFormed) (requests : List Request) :
    (n.serveAll requests).router.WellFormed := by
  induction requests generalizing n with
  | nil => exact h
  | cons request requests ih => exact ih (wellFormed_serve h request)

/-- A subscriber keeps its identifier. -/
theorem idOf_serve (h : n.router.idOf number = some id) (request : Request) :
    (n.serve request).router.idOf number = some id := by
  cases n with
  | client node => cases h
  | server node =>
    rcases request with id' | ⟨k | _, pending⟩ | ⟨k | _⟩ | ⟨sender, line⟩ | line
    · exact Router.idOf_register h
    · exact (Router.idOf_setPending number).trans h
    · exact h
    · exact (Router.idOf_leave k).trans h
    · exact h
    · exact (Router.idOf_broadcast _ _ number).trans h
    · exact (Router.idOf_broadcast line _ number).trans h

theorem idOf_serveAll (h : n.router.idOf number = some id) (requests : List Request) :
    (n.serveAll requests).router.idOf number = some id := by
  induction requests generalizing n with
  | nil => exact h
  | cons request requests ih => exact ih (idOf_serve h request)

/-- Lines that are relayed meanwhile go behind those that wait in a queue. -/
theorem serves_serve (h : n.router.Serves id number lines) (hwf : n.router.WellFormed)
    (hspares : request.Spares n id) :
    (n.serve request).router.Serves id number (lines ++ (n.relays request).map Relay.line) ∧
      ∀ relay ∈ n.relays request, id ∈ relay.ids := by
  cases n with
  | client node => cases h.route
  | server node =>
    -- Only lines that are received or broadcast are relayed.
    have hkeep : ∀ router : Router, router.Serves id number lines →
        router.Serves id number (lines ++ ([] : List Relay).map Relay.line) ∧
          ∀ relay ∈ ([] : List Relay), id ∈ relay.ids := by
      intro router hrouter
      rw [List.map_nil, List.append_nil]
      exact ⟨hrouter, List.forall_mem_nil _⟩
    rcases request with id' | ⟨k | _, pending⟩ | ⟨k | _⟩ | ⟨sender, line⟩ | line
    · exact hkeep _ (h.register hspares)
    · obtain ⟨owner, howner, hne⟩ := hspares
      exact hkeep _ (h.setPending_of_ne (h.number_ne howner hne) pending)
    · exact hkeep _ h
    · obtain ⟨owner, howner, hne⟩ := hspares
      exact hkeep _ (h.leave_of_ne howner hne)
    · exact hkeep _ h
    · exact ⟨Router.Serves.broadcast h hwf _, List.forall_mem_singleton.2 h.mem_ids⟩
    · exact ⟨Router.Serves.broadcast h hwf line, List.forall_mem_singleton.2 h.mem_ids⟩

/-- A flow without a route hears nothing, and gets no route from others. -/
theorem unrouted_serve (h : id ∉ n.router.ids) (hspares : request.Spares n id) :
    id ∉ (n.serve request).router.ids ∧ ∀ relay ∈ n.relays request, id ∉ relay.ids := by
  cases n with
  | client node =>
    rw [router_serve_client]
    exact ⟨h, List.forall_mem_nil _⟩
  | server node =>
    rcases request with id' | ⟨k | _, pending⟩ | ⟨k | _⟩ | ⟨sender, line⟩ | line
    · exact ⟨Router.notMem_ids_register h hspares, List.forall_mem_nil _⟩
    · exact ⟨h, List.forall_mem_nil _⟩
    · exact ⟨h, List.forall_mem_nil _⟩
    · exact ⟨Router.notMem_ids_leave h k, List.forall_mem_nil _⟩
    · exact ⟨h, List.forall_mem_nil _⟩
    · exact ⟨h, List.forall_mem_singleton.2 h⟩
    · exact ⟨h, List.forall_mem_singleton.2 h⟩

/-- Requests of which none concerns the queue of a flow. -/
def SparesAll (n : Node) (id : FlowId) : List Request → Prop
  | [] => True
  | request :: requests => request.Spares n id ∧ (n.serve request).SparesAll id requests

theorem serves_serveAll (h : n.router.Serves id number lines) (hwf : n.router.WellFormed)
    (hspares : n.SparesAll id requests) :
    (n.serveAll requests).router.Serves id number
        (lines ++ (n.relaysAll requests).map Relay.line) ∧
      ∀ relay ∈ n.relaysAll requests, id ∈ relay.ids := by
  induction requests generalizing n lines with
  | nil =>
    rw [relaysAll_nil, List.map_nil, List.append_nil]
    exact ⟨h, List.forall_mem_nil _⟩
  | cons request requests ih =>
    obtain ⟨hfirst, hids⟩ := serves_serve h hwf hspares.1
    obtain ⟨hrest, hids'⟩ := ih hfirst (wellFormed_serve hwf request) hspares.2
    rw [List.append_assoc, ← List.map_append] at hrest
    exact ⟨hrest, List.forall_mem_append.2 ⟨hids, hids'⟩⟩

theorem unrouted_serveAll (h : id ∉ n.router.ids) (hspares : n.SparesAll id requests) :
    id ∉ (n.serveAll requests).router.ids ∧ ∀ relay ∈ n.relaysAll requests, id ∉ relay.ids := by
  induction requests generalizing n with
  | nil => exact ⟨h, List.forall_mem_nil _⟩
  | cons request requests ih =>
    obtain ⟨hfirst, hids⟩ := unrouted_serve h hspares.1
    obtain ⟨hrest, hids'⟩ := ih hfirst hspares.2
    exact ⟨hrest, List.forall_mem_append.2 ⟨hids, hids'⟩⟩

end Node

/-- A request about one queue that is open, or none at all. -/
def Request.IsAbout (outbox : Outbox) : Request → Prop
  | .openOutbox _ => False
  | .setPending outbox' _ | .closeOutbox outbox' => outbox' = outbox
  | .consume _ _ | .broadcast _ => True

namespace Node

variable {n : Node} {id owner : FlowId} {number : Nat} {requests : List Request}

/-- What is asked about the queue of one flow does not concern the others. -/
theorem sparesAll_of_isAbout (howner : n.router.idOf number = some owner) (hne : id ≠ owner)
    (h : ∀ request ∈ requests, request.IsAbout (.subscriber number)) :
    n.SparesAll id requests := by
  induction requests generalizing n with
  | nil => trivial
  | cons request requests ih =>
    obtain ⟨hfirst, hrest⟩ := List.forall_mem_cons.1 h
    refine ⟨?_, ih (idOf_serve howner request) hrest⟩
    rcases request with id' | ⟨_ | _, _⟩ | ⟨_ | _⟩ | ⟨_, _⟩ | _
    · exact hfirst.elim
    · cases hfirst
      exact ⟨owner, howner, hne⟩
    · trivial
    · cases hfirst
      exact ⟨owner, howner, hne⟩
    · trivial
    · trivial
    · trivial

theorem sparesAll_append {more : List Request} :
    n.SparesAll id (requests ++ more) ↔
      n.SparesAll id requests ∧ (n.serveAll requests).SparesAll id more := by
  induction requests generalizing n with
  | nil => exact (and_iff_right trivial).symm
  | cons request requests ih =>
    rw [List.cons_append, SparesAll, SparesAll, serveAll_cons, ih, and_assoc]

/-- Lines received concern no queue. -/
theorem sparesAll_consume (n : Node) (id : FlowId) (sender : String) (heard : List String) :
    n.SparesAll id (heard.map (.consume sender)) := by
  induction heard generalizing n with
  | nil => trivial
  | cons line heard ih => exact ⟨trivial, ih _⟩

/-! ### The own queue -/

def IsServer : Node → Prop
  | .server _ => True
  | .client _ => False

theorem isServer_serve (h : n.IsServer) (request : Request) : (n.serve request).IsServer := by
  cases n with
  | client node => exact h.elim
  | server node => rcases request with _ | ⟨_ | _, _⟩ | ⟨_ | _⟩ | ⟨_, _⟩ | _ <;> trivial

theorem isServer_serveAll (h : n.IsServer) (requests : List Request) :
    (n.serveAll requests).IsServer := by
  induction requests generalizing n with
  | nil => exact h
  | cons request requests ih => exact ih (isServer_serve h request)

/-- Nothing is typed at a server, and nobody reads its console. -/
theorem typeLine_of_isServer (h : n.IsServer) (line : String) : (n.typeLine line).2 = n := by
  cases n with
  | client node => exact h.elim
  | server node => rfl

theorem endTyping_of_isServer (h : n.IsServer) : n.endTyping = n := by
  cases n with
  | client node => exact h.elim
  | server node => rfl

theorem closeConsole_of_isServer (h : n.IsServer) : n.closeConsole = n := by
  cases n with
  | client node => exact h.elim
  | server node => rfl

theorem name_serve (n : Node) (request : Request) : (n.serve request).name = n.name := by
  cases n with
  | server node => rcases request with _ | ⟨_ | _, _⟩ | ⟨_ | _⟩ | ⟨_, _⟩ | _ <;> rfl
  | client node =>
    rcases request with id | ⟨_ | _, _⟩ | ⟨_ | _⟩ | ⟨sender, line⟩ | line
    · simp only [serve, openOutbox]
      split <;> rfl
    · rfl
    · rfl
    · rfl
    · rfl
    · simp only [serve, consume]
      split <;> rfl
    · rfl

theorem name_serveAll (n : Node) (requests : List Request) :
    (n.serveAll requests).name = n.name := by
  induction requests generalizing n with
  | nil => rfl
  | cons request requests ih => exact (ih _).trans (name_serve n request)

theorem name_typeLine (line : String) (n : Node) : (n.typeLine line).2.name = n.name := by
  unfold typeLine
  split
  · rfl
  · split
    · rfl
    · split <;> rfl

theorem name_endTyping (n : Node) : n.endTyping.name = n.name := by
  cases n <;> rfl

theorem name_closeConsole (n : Node) : n.closeConsole.name = n.name := by
  cases n <;> rfl

/-- A server opens a queue for whoever asks. -/
theorem exists_openOutbox (h : n.IsServer) (id : FlowId) :
    ∃ number n', n.openOutbox id = (.ok (.subscriber number), n') ∧
      n'.router.Serves id number [] := by
  cases n with
  | client node => exact h.elim
  | server node => exact ⟨_, _, rfl, Router.serves_register node.router id⟩

theorem pending_of_serves {lines : List String} (h : n.router.Serves id number lines) :
    n.pending (.subscriber number) = lines := by
  cases n with
  | client node => cases h.route
  | server node => exact h.pending_eq

theorem isEnded_of_serves {lines : List String} (h : n.router.Serves id number lines) :
    n.isEnded (.subscriber number) = false := by
  cases n with
  | client node => cases h.route
  | server node =>
    have hleads : node.router.leadsTo number = true := h.leadsTo
    show (!node.router.leadsTo number) = false
    rw [hleads]
    rfl

theorem serves_setPending {lines : List String} (h : n.router.Serves id number lines)
    (left : List String) :
    (n.setPending (.subscriber number) left).router.Serves id number left := by
  cases n with
  | client node => cases h.route
  | server node => exact h.setPending left

theorem unrouted_closeOutbox {lines : List String} (h : n.router.Serves id number lines) :
    id ∉ (n.closeOutbox (.subscriber number)).router.ids := by
  cases n with
  | client node => cases h.route
  | server node => exact h.notMem_ids_leave

end Node

end Parley.Chat
