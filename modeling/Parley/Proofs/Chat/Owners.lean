import Parley.Proofs.Chat.Broadcast

/-!
# Owners of routes

A flow has a route from the moment in which it becomes active until its run ends, however that
happens: a direction of its traffic stops, the flow is asked to stop, or whoever runs it gives
the run up at any point where it waits. A queue that was opened without a flow has a route until
it is given up. There are no other routes.

- `Session.displaced`: the flows whose peer makes room for another one while they run.
- `Session.Owned`: every route has an owner, and every owner has its route. Every step keeps
  it (`Owned.follow`).
- `Session.ids_perm_followAll`: the routes of a server session.
-/

namespace Parley.Chat

/-! ## Active flows -/

namespace Peer

/-- Whether the flow of a peer is active and its run goes on. -/
def isActive (p : Peer) : Bool :=
  match p.presence with
  | .running _ => p.flow.state = .active
  | _ => false

theorem isActive_iff {p : Peer} :
    p.isActive = true ↔ p.flow.state = .active ∧ ∃ phase, p.presence = .running phase := by
  unfold isActive
  split
  case h_1 phase hrunning => simp [hrunning]
  case h_2 hnot =>
    refine iff_of_false Bool.false_ne_true ?_
    rintro ⟨-, phase, hrunning⟩
    exact hnot phase hrunning

end Peer

/-- The identifier under which a queue was opened. -/
def Node.owner? (n : Node) : Outbox → Option FlowId
  | .subscriber number => n.router.idOf number
  | .typed => none

namespace Session

/-- The numbers of the active flows whose runs go on. -/
def activeIds (s : Session) : List FlowId :=
  (s.peers.filter Peer.isActive).map fun p => p.flow.id

/-- The identifiers under which queues were opened without a flow. -/
def outboxIds (s : Session) : List FlowId :=
  s.outboxes.filterMap fun entry => s.node.owner? entry.2

/-- The active flows that lose their name in a step to a peer that is opened under it. Nobody
ever ends their runs. -/
def displaced (s : Session) : Step → List FlowId
  | .perform (.openFlow name) | .perform (.openConnection name) =>
    ((s.peers.filter Peer.isActive).filter fun p => p.name == name).map fun p => p.flow.id
  | _ => []

/-- All flows that lose their name while they run. -/
def displacedAll (s : Session) : List Step → List FlowId
  | [] => []
  | step :: steps => s.displaced step ++ (s.follow step).displacedAll steps

section Accounts

variable {name : String} {log : List Relay} {counts : String → Nat} {s : Session} {p : Peer}

/-- A flow in the list has a route exactly while it is active and its run goes on. -/
theorem Balanced.routed_iff (h : s.Balanced name log counts) (hp : p ∈ s.peers) :
    p.flow.id ∈ s.node.router.ids ↔ p.isActive = true := by
  have haccount := h.accounts p hp
  generalize hpresence : p.presence = presence at haccount
  cases haccount with
  | fresh hfree hunheard =>
    refine iff_of_false hunheard.unrouted fun hactive => ?_
    obtain ⟨-, phase, hrunning⟩ := Peer.isActive_iff.1 hactive
    rw [hpresence] at hrunning
    rcases hfree with rfl | rfl | rfl <;> cases hrunning
  | shaking hstate hunheard =>
    refine iff_of_false hunheard.unrouted fun hactive => ?_
    cases hstate.symm.trans (Peer.isActive_iff.1 hactive).1
  | queued hqueues =>
    exact iff_of_true hqueues.serves.mem_ids (Peer.isActive_iff.2 ⟨hqueues.active, _, hpresence⟩)
  | silent hfree hsilent =>
    refine iff_of_false hsilent.unrouted fun hactive => ?_
    obtain ⟨hstate, phase, hrunning⟩ := Peer.isActive_iff.1 hactive
    rw [hpresence] at hrunning
    obtain rfl | rfl | ⟨-, hclosed, -⟩ := hfree
    · cases hrunning
    · cases hrunning
    · cases hclosed.symm.trans hstate

/-- A flow that has a route has its queue. -/
theorem Balanced.exists_serves (h : s.Balanced name log counts) (hp : p ∈ s.peers)
    (hactive : p.isActive = true) :
    ∃ number lines, s.node.router.Serves p.flow.id number lines := by
  obtain ⟨hstate, phase, hrunning⟩ := Peer.isActive_iff.1 hactive
  have haccount := h.accounts p hp
  rw [hrunning] at haccount
  obtain ⟨number, _, _, _, _, _, _, _, waiting, -, -, hqueues⟩ := exists_queues haccount hstate
  exact ⟨number, waiting, hqueues.serves⟩

end Accounts

/-! ## What is asked of the node -/

/-- Routes and queues of these identifiers are kept, and no others under them are opened. -/
structure Keeps (spared : FlowId → Prop) (n n' : Node) : Prop where
  serves : ∀ id number lines, spared id → n.router.Serves id number lines →
    ∃ lines', n'.router.Serves id number lines'
  routed : ∀ id, spared id → id ∈ n'.router.ids → id ∈ n.router.ids
  owner : ∀ outbox id, n.owner? outbox = some id → n'.owner? outbox = some id

section Keeping

variable {spared : FlowId → Prop} {n n' : Node} {id owner : FlowId} {number number' : Nat}
  {lines lines' : List String}

/-- A queue keeps the identifier under which it was opened. -/
theorem owner?_serve {outbox : Outbox} (h : n.owner? outbox = some id) (request : Request) :
    (n.serve request).owner? outbox = some id := by
  cases outbox with
  | subscriber number => exact Node.idOf_serve h request
  | typed => cases h

theorem owner?_serveAll {outbox : Outbox} (h : n.owner? outbox = some id)
    (requests : List Request) : (n.serveAll requests).owner? outbox = some id := by
  induction requests generalizing n with
  | nil => exact h
  | cons request requests ih => exact ih (owner?_serve h request)

/-- Requests keep the routes of all whom they do not concern. -/
theorem keeps_serveAll (requests : List Request) (hwf : n.router.WellFormed)
    (h : ∀ id, spared id → n.SparesAll id requests) : Keeps spared n (n.serveAll requests) where
  serves id number _ hspared hserves :=
    ⟨_, (Node.serves_serveAll hserves hwf (h id hspared)).1⟩
  routed id hspared hid := by
    by_contra hnot
    exact (Node.unrouted_serveAll hnot (h id hspared)).1 hid
  owner _ _ howner := owner?_serveAll howner requests

theorem number_eq_of_serves (hwf : n.router.WellFormed) (h : n.router.Serves id number lines)
    (h' : n.router.Serves id number' lines') : number = number' :=
  congrArg Prod.snd (List.inj_on_of_nodup_map hwf.nodup h.route h'.route rfl)

/-- All routes are kept when a line is taken from a queue. -/
theorem keeps_setPending (hwf : n.router.WellFormed) (hserves : n.router.Serves owner number lines)
    (left : List String) :
    Keeps (fun _ => True) n (n.setPending (.subscriber number) left) where
  serves id number' _ _ hother := by
    by_cases howner : id = owner
    case pos =>
      subst howner
      obtain rfl := number_eq_of_serves hwf hother hserves
      exact ⟨left, Node.serves_setPending hserves left⟩
    case neg =>
      have hspares : Request.Spares n id (.setPending (.subscriber number) left) :=
        ⟨owner, hserves.idOf_eq, howner⟩
      exact ⟨_, (Node.serves_serve hother hwf hspares).1⟩
  routed id _ hid := by
    cases n with
    | server | client => exact hid
  owner _ _ howner := owner?_serve howner (.setPending (.subscriber number) left)

end Keeping

/-! ## Owners -/

/-- A route that belongs to no peer and no queue that is known by name. -/
structure Stray (s : Session) (id : FlowId) : Prop where
  ne_zero : id ≠ 0
  lt_nextFlow : id < s.nextFlow
  nextOutbox_lt : s.nextOutbox < id
  flow_ne : ∀ p ∈ s.peers, p.flow.id ≠ id
  notMem_outboxIds : id ∉ s.outboxIds
  serves : ∃ number lines, s.node.router.Serves id number lines

/-- Every route of a server session belongs to the flow of a peer or to a queue that was opened
without a flow, but for those that are stray; and each such queue has its route. -/
structure Owned (name : String) (strays : List FlowId) (s : Session) : Prop where
  balanced : ∃ log counts, s.Balanced name log counts
  owned : ∀ id ∈ s.node.router.ids,
    (∃ p ∈ s.peers, p.flow.id = id) ∨ id ∈ strays ∨ id ∈ s.outboxIds
  stray : ∀ id ∈ strays, s.Stray id
  strays_nodup : strays.Nodup
  outboxes : ∀ entry ∈ s.outboxes, ∃ number owner lines, entry.2 = .subscriber number ∧
    s.nextOutbox < owner ∧ owner < 0 ∧ s.node.router.Serves owner number lines
  keys_nodup : (s.outboxes.map Prod.fst).Nodup
  outboxes_nodup : (s.outboxes.map Prod.snd).Nodup

section Owners

variable {name : String} {log : List Relay} {counts : String → Nat} {s s' : Session} {p p' : Peer}
  {strays more : List FlowId} {limit : Nat} {requests : List Request} {next : FlowId} {id : FlowId}
  {spared : FlowId → Prop} {n' : Node} {entry : String × Outbox}

theorem mem_outboxIds : id ∈ s.outboxIds ↔ ∃ entry ∈ s.outboxes, s.node.owner? entry.2 = some id :=
  List.mem_filterMap

/-- A queue that was opened without a flow is known under a negative identifier. -/
theorem Owned.exists_owner (h : s.Owned name strays) (hentry : entry ∈ s.outboxes) :
    ∃ owner, s.node.owner? entry.2 = some owner ∧ s.nextOutbox < owner ∧ owner < 0 := by
  obtain ⟨number, owner, lines, hnumber, hlt, hneg, hserves⟩ := h.outboxes entry hentry
  refine ⟨owner, ?_, hlt, hneg⟩
  rw [hnumber]
  exact hserves.idOf_eq

theorem Owned.range_of_mem_outboxIds (h : s.Owned name strays) (hid : id ∈ s.outboxIds) :
    s.nextOutbox < id ∧ id < 0 := by
  obtain ⟨entry, hentry, howner⟩ := mem_outboxIds.1 hid
  obtain ⟨owner, howner', hrange⟩ := h.exists_owner hentry
  rwa [← Option.some.inj (howner.symm.trans howner')] at hrange

/-- Queues keep the identifiers under which they were opened. -/
theorem Owned.outboxIds_eq (h : s.Owned name strays) (s' : Session)
    (houtboxes : s'.outboxes = s.outboxes) (hkeeps : Keeps spared s.node s'.node) :
    s'.outboxIds = s.outboxIds := by
  rw [outboxIds, houtboxes]
  refine List.filterMap_congr fun entry hentry => ?_
  obtain ⟨owner, howner, -⟩ := h.exists_owner hentry
  rw [howner]
  exact hkeeps.owner entry.2 owner howner

/-- The active flows have different numbers. -/
theorem Balanced.activeIds_nodup (h : s.Balanced name log counts) : s.activeIds.Nodup := by
  refine List.Nodup.map_on (fun p hp q hq heq => ?_) ((List.Nodup.of_map _ h.distinct).filter _)
  obtain ⟨hp, hactive⟩ := List.mem_filter.1 hp
  obtain ⟨hq, -⟩ := List.mem_filter.1 hq
  have hid := h.numbered.id_ne_zero hp (.inr (Peer.isActive_iff.1 hactive).2)
  exact eq_of_name_eq h.distinct hp hq ((h.numbered.injective p hp q hq heq).resolve_left hid)

/-! ### Peers -/

/-- The flows in `more` lose their name to a peer that is set, and no other flow that has a
route. -/
structure Displaces (s : Session) (p' : Peer) (more : List FlowId) : Prop where
  same : ∀ p ∈ s.peers, p.name = p'.name → p.isActive = true →
    p'.flow.id = p.flow.id ∨ p.flow.id ∈ more
  active : ∀ id ∈ more, p'.flow.id ≠ id ∧
    ∃ p ∈ s.peers, p.name = p'.name ∧ p.flow.id = id ∧ p.isActive = true
  nodup : more.Nodup

/-- What the flow of a peer asks for concerns nobody else. -/
theorem Booked.keeps (h : s.Booked name log limit p' requests next)
    (hwf : s.node.router.WellFormed) :
    Keeps (fun id => ¬ (p'.flow.id ≠ 0 ∧ p'.flow.id = id)) s.node (s.node.serveAll requests) :=
  keeps_serveAll requests hwf fun _ hspared => h.spares fun hzero heq => hspared ⟨hzero, heq.symm⟩

theorem Owned.outboxIds_serve (h : s.Owned name strays) (hwf : s.node.router.WellFormed)
    (hbooked : s.Booked name log limit p' requests next) :
    ({ s with nextFlow := next }.serve p' requests).outboxIds = s.outboxIds :=
  h.outboxIds_eq ({ s with nextFlow := next }.serve p' requests) rfl (hbooked.keeps hwf)

/-- A stray route stays one. -/
theorem Owned.stray_serve (h : s.Owned name strays) (hwf : s.node.router.WellFormed)
    (hbooked : s.Booked name log limit p' requests next) (hid : id ∈ strays) :
    ({ s with nextFlow := next }.serve p' requests).Stray id := by
  obtain ⟨hzero, hlt, hlow, hpeers, houtboxes, number, lines, hserves⟩ := h.stray id hid
  have hkeeps := hbooked.keeps hwf
  have hne : p'.flow.id ≠ id := by
    obtain ⟨hid | ⟨p, hp, -, hp'⟩, -⟩ | ⟨hnew, -⟩ := hbooked.number
    · exact fun heq => hzero (heq.symm.trans hid)
    · exact hp' ▸ hpeers p hp
    · lia
  refine ⟨hzero, Int.lt_of_lt_of_le hlt hbooked.numbers.next_le, hlow, fun q hq => ?_, ?_,
    number, hkeeps.serves id number lines (fun hown => hne hown.2) hserves⟩
  · rcases mem_setPeer.1 hq with rfl | ⟨hq, -⟩
    · exact hne
    · exact hpeers q hq
  · rwa [h.outboxIds_serve hwf hbooked]

/-- The route of a flow that loses its name goes astray. -/
theorem Displaces.stray_serve (hmore : s.Displaces p' more) (h : s.Owned name strays)
    (hb : s.Balanced name log counts) (hbooked : s.Booked name log limit p' requests next)
    (hid : id ∈ more) : ({ s with nextFlow := next }.serve p' requests).Stray id := by
  obtain ⟨hne, p, hp, hname, rfl, hactive⟩ := hmore.active id hid
  have hkeeps := hbooked.keeps hb.wellFormed
  have hzero := hb.numbered.id_ne_zero hp (.inr (Peer.isActive_iff.1 hactive).2)
  obtain ⟨hnonneg, hlt⟩ := hb.numbered.numbers p hp
  obtain ⟨number, lines, hserves⟩ := hb.exists_serves hp hactive
  refine ⟨hzero, Int.lt_of_lt_of_le hlt hbooked.numbers.next_le,
    Int.lt_of_lt_of_le hb.nextOutbox_neg hnonneg, fun q hq => ?_, ?_, number,
    hkeeps.serves _ number lines (fun hown => hne hown.2) hserves⟩
  · rcases mem_setPeer.1 hq with rfl | ⟨hq, hother⟩
    · exact hne
    · intro heq
      have hsame := (hb.numbered.injective q hq p hp heq).resolve_left (heq ▸ hzero)
      exact hother (hsame.trans hname)
  · rw [h.outboxIds_serve hb.wellFormed hbooked]
    intro hmem
    have hneg := (h.range_of_mem_outboxIds hmem).2
    lia

/-- Every route has an owner then. -/
theorem Owned.owned_serve (h : s.Owned name strays) (hb : s.Balanced name log counts)
    (hbooked : s.Booked name log limit p' requests next) (hmore : s.Displaces p' more)
    (hid : id ∈ (s.node.serveAll requests).router.ids) :
    (∃ q ∈ ({ s with nextFlow := next }.serve p' requests).peers, q.flow.id = id) ∨
      id ∈ strays ++ more ∨ id ∈ ({ s with nextFlow := next }.serve p' requests).outboxIds := by
  have hkeeps := hbooked.keeps hb.wellFormed
  rw [h.outboxIds_serve hb.wellFormed hbooked]
  by_cases hown : p'.flow.id ≠ 0 ∧ p'.flow.id = id
  case pos => exact .inl ⟨p', mem_setPeer_self, hown.2⟩
  case neg =>
    have hbefore := hkeeps.routed id hown hid
    obtain ⟨p, hp, rfl⟩ | hstray | houtbox := h.owned id hbefore
    · by_cases hname : p.name = p'.name
      case pos =>
        have hactive := (hb.routed_iff hp).1 hbefore
        have hzero := hb.numbered.id_ne_zero hp (.inr (Peer.isActive_iff.1 hactive).2)
        obtain hsame | hmem := hmore.same p hp hname hactive
        · exact absurd ⟨hsame ▸ hzero, hsame⟩ hown
        · exact .inr (.inl (List.mem_append_right _ hmem))
      case neg => exact .inl ⟨p, mem_setPeer_of_ne hp hname, rfl⟩
    · exact .inr (.inl (List.mem_append_left _ hstray))
    · exact .inr (.inr houtbox)

/-- Owners keep their routes, and routes their owners, when a peer is set and what its flow asks
is done. -/
theorem Owned.serve (h : s.Owned name strays) (hb : s.Balanced name log counts)
    (hbooked : s.Booked name log limit p' requests next) (hmore : s.Displaces p' more) :
    ({ s with nextFlow := next }.serve p' requests).Owned name (strays ++ more) where
  balanced := ⟨_, Function.update counts p'.name limit,
    hb.serve hbooked (Function.update_self ..) fun other hne => Function.update_of_ne hne ..⟩
  owned _ hid := h.owned_serve hb hbooked hmore hid
  stray id hid := (List.mem_append.1 hid).elim (h.stray_serve hb.wellFormed hbooked)
    (hmore.stray_serve h hb hbooked)
  strays_nodup := by
    refine List.nodup_append.2 ⟨h.strays_nodup, hmore.nodup, ?_⟩
    rintro id hstray _ hmem rfl
    obtain ⟨-, p, hp, -, hp', -⟩ := hmore.active id hmem
    exact (h.stray id hstray).flow_ne p hp hp'
  outboxes entry hentry := by
    obtain ⟨number, owner, lines, hnumber, hlt, hneg, hserves⟩ := h.outboxes entry hentry
    have hnonneg := (hbooked.numbers.id_range hb.numbered).1
    obtain ⟨lines', hserves'⟩ := (hbooked.keeps hb.wellFormed).serves owner number lines
      (fun hown => by lia) hserves
    exact ⟨number, owner, lines', hnumber, hlt, hneg, hserves'⟩
  keys_nodup := h.keys_nodup
  outboxes_nodup := h.outboxes_nodup

/-- A flow that is run keeps its number until its run ends. -/
theorem Balanced.id_eq_of_turn {step : Step} (h : s.Balanced name log counts) (hp : p ∈ s.peers)
    (hactive : p.isActive = true) (hturn : Turn s p step p' requests next) :
    p'.flow.id = p.flow.id := by
  obtain ⟨-, phase, hrunning⟩ := Peer.isActive_iff.1 hactive
  cases hturn with
  | poll =>
    have haccount := h.accounts p hp
    rw [hrunning] at haccount
    unfold Peer.poll
    rw [hrunning]
    exact (Peer.accounts_settle (Flow.accounts_poll haccount h.named h.server h.wellFormed)).id_eq
  | run => rw [Peer.run_of_busy (by simp [hrunning]) (by simp [hrunning])]
  | abandon => exact p.persists_abandon.id
  | farEnd | requestClose => rfl
  | runOnce hidle | handshake hidle | closeFlow hidle => cases hrunning.symm.trans hidle
  | dropFlow hfree => rcases hfree with hfree | hfree <;> cases hrunning.symm.trans hfree
  | disposeConnection hfree => cases hrunning.symm.trans hfree

/-- A peer that takes its own place displaces nobody. -/
theorem displaces_nil (hs : s.Distinct) (hp : p ∈ s.peers) (hname : p'.name = p.name)
    (hid : p.isActive = true → p'.flow.id = p.flow.id) : s.Displaces p' [] where
  same q hq hqname hactive := by
    obtain rfl := eq_of_name_eq hs hq hp (hqname.trans hname)
    exact .inl (hid hactive)
  active _ hmem := absurd hmem List.not_mem_nil
  nodup := List.nodup_nil

theorem Owned.turn {step : Step} (h : s.Owned name strays) (hp : p ∈ s.peers)
    (hturn : Turn s p step p' requests next) :
    ({ s with nextFlow := next }.serve p' requests).Owned name strays := by
  obtain ⟨log, counts, hb⟩ := h.balanced
  have hserved := h.serve hb (hb.booked_turn hp hturn)
    (displaces_nil hb.distinct hp hturn.name_eq fun hactive => hb.id_eq_of_turn hp hactive hturn)
  rwa [List.append_nil] at hserved

/-- A peer that is opened displaces the active flow of its name. -/
theorem Balanced.displaces (h : s.Balanced name log counts) (hnew : p'.flow.id = 0 ∨
    s.nextFlow ≤ p'.flow.id) :
    s.Displaces p'
      (((s.peers.filter Peer.isActive).filter fun p => p.name == p'.name).map
        fun p => p.flow.id) where
  same p hp hname hactive := .inr (List.mem_map_of_mem (List.mem_filter.2
    ⟨List.mem_filter.2 ⟨hp, hactive⟩, beq_iff_eq.2 hname⟩))
  active id hid := by
    obtain ⟨p, hmem, rfl⟩ := List.mem_map.1 hid
    obtain ⟨hmem, hname⟩ := List.mem_filter.1 hmem
    obtain ⟨hp, hactive⟩ := List.mem_filter.1 hmem
    have hzero := h.numbered.id_ne_zero hp (.inr (Peer.isActive_iff.1 hactive).2)
    have hrange := h.numbered.numbers p hp
    refine ⟨fun heq => ?_, p, hp, beq_iff_eq.1 hname, rfl, hactive⟩
    rcases hnew with hnew | hnew <;> lia
  nodup := h.activeIds_nodup.sublist (List.filter_sublist.map _)

/-! ### Queues -/

/-- All owners are kept when no route is opened or ended. -/
theorem Owned.of_keeps (h : s.Owned name strays)
    (hb : ∃ log counts, Balanced name log counts { s with node := n' })
    (hkeeps : Keeps (fun _ => True) s.node n') :
    Owned name strays { s with node := n' } := by
  have hids : outboxIds { s with node := n' } = s.outboxIds :=
    h.outboxIds_eq { s with node := n' } rfl hkeeps
  refine ⟨hb, fun id hid => ?_, fun id hid => ?_, h.strays_nodup, fun entry hentry => ?_,
    h.keys_nodup, h.outboxes_nodup⟩
  · rw [hids]
    exact h.owned id (hkeeps.routed id trivial hid)
  · obtain ⟨hzero, hlt, hlow, hpeers, houtboxes, number, lines, hserves⟩ := h.stray id hid
    exact ⟨hzero, hlt, hlow, hpeers, hids ▸ houtboxes, number,
      hkeeps.serves id number lines trivial hserves⟩
  · obtain ⟨number, owner, lines, hnumber, hlt, hneg, hserves⟩ := h.outboxes entry hentry
    obtain ⟨lines', hserves'⟩ := hkeeps.serves owner number lines trivial hserves
    exact ⟨number, owner, lines', hnumber, hlt, hneg, hserves'⟩

theorem Owned.serveAll (h : s.Owned name strays) (requests : List Request)
    (hspares : ∀ id, s.node.SparesAll id requests) :
    Owned name strays { s with node := s.node.serveAll requests } := by
  obtain ⟨log, counts, hb⟩ := h.balanced
  exact h.of_keeps ⟨_, _, hb.serveAll fun id _ => hspares id⟩
    (keeps_serveAll requests hb.wellFormed fun id _ => hspares id)

/-- A line is taken from a queue that was opened without a flow. -/
theorem Owned.nextLine (h : s.Owned name strays) (key : String) :
    (s.nextLine key).2.Owned name strays := by
  obtain ⟨log, counts, hb⟩ := h.balanced
  have hbalanced := hb.nextLine key
  unfold Session.nextLine at hbalanced ⊢
  split
  case h_1 outbox hlookup =>
    rw [hlookup] at hbalanced
    obtain ⟨number, owner, lines, rfl, -, -, hserves⟩ := h.outboxes _ (mem_of_lookup hlookup)
    unfold Node.nextLine at hbalanced ⊢
    cases hpending : s.node.pending (.subscriber number) with
    | nil => cases s.node.isEnded (.subscriber number) <;> exact h
    | cons line left =>
      simp only [hpending] at hbalanced
      exact h.of_keeps ⟨_, _, hbalanced⟩ (keeps_setPending hb.wellFormed hserves left)
  case h_2 => exact h

theorem closeOutbox_of_lookup {key : String} {outbox : Outbox}
    (h : s.outboxes.lookup key = some outbox) :
    s.closeOutbox key = { s with
      node := s.node.closeOutbox outbox
      outboxes := s.outboxes.filter fun entry => entry.1 != key } := by
  unfold Session.closeOutbox
  rw [h]

theorem closeOutbox_of_notMem {key : String} (h : s.outboxes.lookup key = none) :
    s.closeOutbox key = s := by
  unfold Session.closeOutbox
  rw [h]

/-- The entries of other names are kept when a queue is given up. -/
theorem mem_outboxes_closeOutbox {key : String} :
    entry ∈ (s.closeOutbox key).outboxes ↔ entry ∈ s.outboxes ∧ entry.1 ≠ key := by
  cases hlookup : s.outboxes.lookup key with
  | some outbox => rw [closeOutbox_of_lookup hlookup]; simp
  | none =>
    rw [closeOutbox_of_notMem hlookup]
    refine (and_iff_left_of_imp fun hentry heq => ?_).symm
    have hnone := List.lookup_eq_none_iff.1 hlookup entry hentry
    simp [heq] at hnone

/-- Queues that were opened without a flow have identifiers of their own. -/
theorem Owned.entry_eq (h : s.Owned name strays) {entry' : String × Outbox}
    (hentry : entry ∈ s.outboxes) (hentry' : entry' ∈ s.outboxes)
    (howner : s.node.owner? entry.2 = some id) (howner' : s.node.owner? entry'.2 = some id) :
    entry = entry' := by
  obtain ⟨log, counts, hb⟩ := h.balanced
  obtain ⟨number, owner, lines, hnumber, -, -, hserves⟩ := h.outboxes entry hentry
  obtain ⟨number', owner', lines', hnumber', -, -, hserves'⟩ := h.outboxes entry' hentry'
  rw [hnumber] at howner
  rw [hnumber'] at howner'
  obtain rfl := Option.some.inj (hserves.idOf_eq.symm.trans howner)
  obtain rfl := Option.some.inj (hserves'.idOf_eq.symm.trans howner')
  obtain rfl := number_eq_of_serves hb.wellFormed hserves hserves'
  exact List.inj_on_of_nodup_map h.outboxes_nodup hentry hentry' (hnumber.trans hnumber'.symm)

theorem Owned.mem_outboxIds_closeOutbox (h : s.Owned name strays) {key : String} {outbox : Outbox}
    {owner : FlowId} (hlookup : s.outboxes.lookup key = some outbox)
    (howner : s.node.owner? outbox = some owner) :
    id ∈ (s.closeOutbox key).outboxIds ↔ id ∈ s.outboxIds ∧ id ≠ owner := by
  have hentry := mem_of_lookup hlookup
  have hkept {entry : String × Outbox} (hentry : entry ∈ s.outboxes) :
      (s.closeOutbox key).node.owner? entry.2 = s.node.owner? entry.2 := by
    obtain ⟨owner, howner, -⟩ := h.exists_owner hentry
    rw [closeOutbox_of_lookup hlookup, howner]
    exact owner?_serve howner (.closeOutbox outbox)
  rw [mem_outboxIds, mem_outboxIds]
  constructor
  · rintro ⟨entry, hmem, hid⟩
    obtain ⟨hmem, hkey⟩ := mem_outboxes_closeOutbox.1 hmem
    rw [hkept hmem] at hid
    refine ⟨⟨entry, hmem, hid⟩, ?_⟩
    rintro rfl
    exact hkey (congrArg Prod.fst (h.entry_eq hmem hentry hid howner))
  · rintro ⟨⟨entry, hmem, hid⟩, hne⟩
    refine ⟨entry, mem_outboxes_closeOutbox.2 ⟨hmem, fun hkey => hne ?_⟩, (hkept hmem).trans hid⟩
    obtain rfl := List.inj_on_of_nodup_map h.keys_nodup hmem hentry hkey
    exact Option.some.inj (hid.symm.trans howner)

/-- A queue that is given up loses its route, and no other does. -/
theorem Owned.closeOutbox (h : s.Owned name strays) (key : String) :
    (s.closeOutbox key).Owned name strays := by
  obtain ⟨log, counts, hb⟩ := h.balanced
  have hbalanced := hb.closeOutbox key
  cases hlookup : s.outboxes.lookup key with
  | none =>
    rw [closeOutbox_of_notMem hlookup]
    exact h
  | some outbox =>
    have hentry := mem_of_lookup hlookup
    obtain ⟨number, owner, lines, rfl, -, -, hserves⟩ := h.outboxes _ hentry
    have hkeeps : Keeps (fun id => id ≠ owner) s.node (s.node.closeOutbox (.subscriber number)) :=
      keeps_serveAll [.closeOutbox (.subscriber number)] hb.wellFormed
        fun id hne => ⟨⟨owner, hserves.idOf_eq, hne⟩, trivial⟩
    have howner : s.node.owner? (.subscriber number) = some owner := hserves.idOf_eq
    have hids {id : FlowId} : id ∈ (s.closeOutbox key).outboxIds ↔ _ :=
      h.mem_outboxIds_closeOutbox hlookup howner
    have hmem {entry : String × Outbox} : entry ∈ (s.closeOutbox key).outboxes ↔ _ :=
      mem_outboxes_closeOutbox
    rw [closeOutbox_of_lookup hlookup] at hbalanced hmem hids ⊢
    refine ⟨⟨_, _, hbalanced⟩, fun id hid => ?_, fun id hid => ?_, h.strays_nodup,
      fun entry' hentry' => ?_, h.keys_nodup.sublist (List.filter_sublist.map _),
      h.outboxes_nodup.sublist (List.filter_sublist.map _)⟩
    · have hne : id ≠ owner := by
        rintro rfl
        exact Node.unrouted_closeOutbox hserves hid
      rw [hids]
      exact (h.owned id (hkeeps.routed id hne hid)).imp_right (.imp_right fun hid => ⟨hid, hne⟩)
    · obtain ⟨hzero, hlt, hlow, hpeers, houtboxes, number', lines', hserves'⟩ := h.stray id hid
      have hne : id ≠ owner := by
        rintro rfl
        exact houtboxes (mem_outboxIds.2 ⟨_, hentry, howner⟩)
      exact ⟨hzero, hlt, hlow, hpeers, fun hid => houtboxes (hids.1 hid).1, number',
        hkeeps.serves id number' lines' hne hserves'⟩
    · obtain ⟨hentry', hkey⟩ := hmem.1 hentry'
      obtain ⟨number', owner', lines', hnumber', hlt, hneg, hserves'⟩ := h.outboxes entry' hentry'
      have hne : owner' ≠ owner := by
        rintro rfl
        refine hkey (congrArg Prod.fst (h.entry_eq hentry' hentry ?_ howner))
        rw [hnumber']
        exact hserves'.idOf_eq
      obtain ⟨left, hleft⟩ := hkeeps.serves owner' number' lines' hne hserves'
      exact ⟨number', owner', left, hnumber', hlt, hneg, hleft⟩

theorem Owned.keeps_closeOutbox (h : s.Owned name strays) (key : String) :
    Keeps (fun id => id ∉ s.outboxIds) s.node (s.closeOutbox key).node := by
  obtain ⟨log, counts, hb⟩ := h.balanced
  cases hlookup : s.outboxes.lookup key with
  | none =>
    rw [closeOutbox_of_notMem hlookup]
    exact keeps_serveAll [] hb.wellFormed fun _ _ => trivial
  | some outbox =>
    have hentry := mem_of_lookup hlookup
    obtain ⟨number, owner, lines, rfl, -, -, hserves⟩ := h.outboxes _ hentry
    rw [closeOutbox_of_lookup hlookup]
    refine keeps_serveAll [.closeOutbox (.subscriber number)] hb.wellFormed
      fun id hid => ⟨⟨owner, hserves.idOf_eq, ?_⟩, trivial⟩
    rintro rfl
    exact hid (mem_outboxIds.2 ⟨_, hentry, hserves.idOf_eq⟩)

/-- A queue is opened; it has a route, and nobody knows it yet. -/
theorem Owned.register (h : s.Owned name strays) {n' : Node} {outbox : Outbox}
    (hopen : s.node.openOutbox s.nextOutbox = (.ok outbox, n'))
    (hserves : ∃ number lines, n'.router.Serves s.nextOutbox number lines) :
    Owned name (s.nextOutbox :: strays)
      { s with node := n', nextOutbox := s.nextOutbox - 1 } := by
  obtain ⟨log, counts, hb⟩ := h.balanced
  have hneg := hb.nextOutbox_neg
  have hpos := hb.numbered.next_pos
  have hlower : s.nextOutbox - 1 < s.nextOutbox := Int.sub_lt_self _ Int.one_pos
  have hn' : s.node.serveAll [.openOutbox s.nextOutbox] = n' := congrArg Prod.snd hopen
  have hspares : ∀ id ≠ s.nextOutbox, s.node.SparesAll id [.openOutbox s.nextOutbox] :=
    fun id hne => ⟨hne, trivial⟩
  have hkeeps := keeps_serveAll [.openOutbox s.nextOutbox] hb.wellFormed hspares
  have hserved := hb.serveAll_of_relaysAll (fun id hid => hspares id (by lia)) (by simp)
  rw [hn'] at hkeeps hserved
  have hids : outboxIds { s with node := n', nextOutbox := s.nextOutbox - 1 } = s.outboxIds :=
    h.outboxIds_eq { s with node := n', nextOutbox := s.nextOutbox - 1 } rfl hkeeps
  have hnew : s.nextOutbox ∉ strays := fun hmem => by
    have hlow := (h.stray _ hmem).nextOutbox_lt
    lia
  refine ⟨⟨_, _, hserved.of_outboxes (by lia) hserved.outboxes⟩, fun id hid => ?_,
    List.forall_mem_cons.2 ⟨?_, fun id hid => ?_⟩, List.nodup_cons.2 ⟨hnew, h.strays_nodup⟩,
    fun entry hentry => ?_, h.keys_nodup, h.outboxes_nodup⟩
  · rw [hids]
    by_cases hown : id = s.nextOutbox
    case pos => exact .inr (.inl (hown ▸ List.mem_cons_self))
    case neg =>
      exact (h.owned id (hkeeps.routed id hown hid)).imp_right
        (.imp_left (List.mem_cons_of_mem _))
  · refine ⟨by lia, Int.lt_trans hneg hpos, hlower, fun p hp heq => ?_, ?_, hserves⟩
    · have hrange := hb.numbered.numbers p hp
      lia
    · rw [hids]
      intro hmem
      have hlow := (h.range_of_mem_outboxIds hmem).1
      lia
  · obtain ⟨hzero, hlt, hlow, hpeers, houtboxes, number, lines, hserves⟩ := h.stray id hid
    exact ⟨hzero, hlt, Int.lt_trans hlower hlow, hpeers, hids ▸ houtboxes, number,
      hkeeps.serves id number lines (Int.ne_of_gt hlow) hserves⟩
  · obtain ⟨number, owner, lines, hnumber, hlt, hneg, hserves⟩ := h.outboxes entry hentry
    obtain ⟨lines', hserves'⟩ := hkeeps.serves owner number lines (Int.ne_of_gt hlt) hserves
    exact ⟨number, owner, lines', hnumber, Int.lt_trans hlower hlt, hneg, hserves'⟩

/-- A queue that nobody knows gets a name. -/
theorem Owned.keep (h : s.Owned name (id :: strays)) {key : String} {number : Nat}
    {lines : List String} (hneg : id < 0) (hserves : s.node.router.Serves id number lines)
    (hkey : key ∉ s.outboxes.map Prod.fst) :
    Owned name strays { s with outboxes := (key, .subscriber number) :: s.outboxes } := by
  obtain ⟨log, counts, hb⟩ := h.balanced
  obtain ⟨hnew, hnodup⟩ := List.nodup_cons.1 h.strays_nodup
  have hstray := h.stray id List.mem_cons_self
  have hids : outboxIds { s with outboxes := (key, .subscriber number) :: s.outboxes } =
      id :: s.outboxIds := List.filterMap_cons_some hserves.idOf_eq
  refine ⟨⟨_, _, hb.of_outboxes hb.nextOutbox_neg (List.forall_mem_cons.2
      ⟨⟨number, id, rfl, hserves.idOf_eq, hneg⟩, hb.outboxes⟩)⟩, fun id' hid => ?_,
    fun id' hid => ?_, hnodup,
    List.forall_mem_cons.2 ⟨⟨number, id, lines, rfl, hstray.nextOutbox_lt, hneg, hserves⟩,
      h.outboxes⟩,
    List.nodup_cons.2 ⟨hkey, h.keys_nodup⟩, List.nodup_cons.2 ⟨fun hmem => ?_, h.outboxes_nodup⟩⟩
  · rw [hids]
    obtain hpeer | hmem | hmem := h.owned id' hid
    · exact .inl hpeer
    · rcases List.mem_cons.1 hmem with rfl | hmem
      · exact .inr (.inr List.mem_cons_self)
      · exact .inr (.inl hmem)
    · exact .inr (.inr (List.mem_cons_of_mem _ hmem))
  · have hother := h.stray id' (List.mem_cons_of_mem _ hid)
    refine ⟨hother.ne_zero, hother.lt_nextFlow, hother.nextOutbox_lt, hother.flow_ne, ?_,
      hother.serves⟩
    rw [hids, List.mem_cons, not_or]
    exact ⟨fun heq => hnew (heq ▸ hid), hother.notMem_outboxIds⟩
  · obtain ⟨entry, hentry, hnumber⟩ := List.mem_map.1 hmem
    refine hstray.notMem_outboxIds (mem_outboxIds.2 ⟨entry, hentry, ?_⟩)
    rw [hnumber]
    exact hserves.idOf_eq

theorem Owned.openOutbox (h : s.Owned name strays) (key : String) :
    (s.openOutbox key).2.Owned name strays := by
  obtain ⟨log, counts, hb⟩ := h.balanced
  obtain ⟨number, n', hopen, hserves⟩ := Node.exists_openOutbox hb.server s.nextOutbox
  have hopened := h.register hopen ⟨number, [], hserves⟩
  -- A queue that was known by this name is given up.
  obtain ⟨lines, hserves'⟩ := (hopened.keeps_closeOutbox key).serves _ number []
    (hopened.stray _ List.mem_cons_self).notMem_outboxIds hserves
  unfold Session.openOutbox
  rw [hopen]
  refine (hopened.closeOutbox key).keep hb.nextOutbox_neg hserves' ?_
  rw [List.mem_map]
  rintro ⟨entry, hentry, rfl⟩
  exact (mem_outboxes_closeOutbox.1 hentry).2 rfl

/-! ### Steps -/

theorem Owned.openFlow (h : s.Owned name strays) (peer : String) :
    (s.openFlow peer).2.Owned name
      (strays ++ s.displaced (.perform (.openFlow peer))) := by
  obtain ⟨log, counts, hb⟩ := h.balanced
  exact h.serve hb (hb.booked_openFlow peer) (hb.displaces (.inr (Int.le_refl _)))

theorem Owned.openConnection (h : s.Owned name strays) (peer : String) :
    (s.openConnection peer).2.Owned name
      (strays ++ s.displaced (.perform (.openConnection peer))) := by
  obtain ⟨log, counts, hb⟩ := h.balanced
  exact h.serve hb (hb.booked_openConnection peer) (hb.displaces (.inl rfl))

theorem Owned.cancel (h : s.Owned name strays) :
    Owned name strays
      { s with
        cancelled := true
        peers := s.peers.map fun p => { p with flow := p.flow.cancel } } where
  balanced := by
    obtain ⟨log, counts, hb⟩ := h.balanced
    exact ⟨log, counts, hb.cancel⟩
  owned id hid := by
    obtain ⟨p, hp, hpid⟩ | hother := h.owned id hid
    · exact .inl ⟨_, List.mem_map_of_mem hp, hpid⟩
    · exact .inr hother
  stray id hid := by
    obtain ⟨hzero, hlt, hlow, hpeers, houtboxes, hserves⟩ := h.stray id hid
    refine ⟨hzero, hlt, hlow, fun q hq => ?_, houtboxes, hserves⟩
    obtain ⟨p, hp, rfl⟩ := List.mem_map.1 hq
    exact hpeers p hp
  strays_nodup := h.strays_nodup
  outboxes := h.outboxes
  keys_nodup := h.keys_nodup
  outboxes_nodup := h.outboxes_nodup

/-- All owners are kept in every step that opens no peer. -/
theorem Owned.follow_of_ne (h : s.Owned name strays) {step : Step}
    (hflow : ∀ peer, step ≠ .perform (.openFlow peer))
    (hconnection : ∀ peer, step ≠ .perform (.openConnection peer)) :
    (s.follow step).Owned name strays := by
  obtain ⟨log, counts, hb⟩ := h.balanced
  have heffect := s.effect_follow step
  generalize s.requests step = requests, s.follow step = s' at heffect ⊢
  cases heffect with
  | still => exact h
  | turn hp hturn => exact h.turn hp hturn
  | openFlow peer => exact absurd rfl (hflow peer)
  | openConnection peer => exact absurd rfl (hconnection peer)
  | typeLine line => rwa [Node.typeLine_of_isServer hb.server]
  | endTyping => rwa [Node.endTyping_of_isServer hb.server]
  | closeConsole => rwa [Node.closeConsole_of_isServer hb.server]
  | cancel => exact h.cancel
  | broadcast line => exact h.serveAll [.broadcast line] fun _ => ⟨trivial, trivial⟩
  | consume sender line => exact h.serveAll [.consume sender line] fun _ => ⟨trivial, trivial⟩
  | openOutbox key => exact h.openOutbox key
  | nextLine key => exact h.nextLine key
  | closeOutbox key => exact h.closeOutbox key

/-- Every step keeps the owners. -/
theorem Owned.follow (h : s.Owned name strays) (step : Step) :
    (s.follow step).Owned name (strays ++ s.displaced step) := by
  unfold displaced
  split
  case h_1 peer => exact h.openFlow peer
  case h_2 peer => exact h.openConnection peer
  case h_3 hflow hconnection =>
    rw [List.append_nil]
    exact h.follow_of_ne hflow hconnection

theorem Owned.followAll (h : s.Owned name strays) (steps : List Step) :
    (s.followAll steps).Owned name (strays ++ s.displacedAll steps) := by
  induction steps generalizing s strays with
  | nil =>
    rw [displacedAll, List.append_nil]
    exact h
  | cons step steps ih =>
    rw [displacedAll, ← List.append_assoc]
    exact ih (h.follow step)

theorem owned_newServer (name : String) (transform : Transform) (nextObject : Formula.ObjectId)
    (clock : Clock) :
    (ofNode (.newServer name transform nextObject clock)).Owned name [] where
  balanced := ⟨_, _, balanced_newServer name transform nextObject clock⟩
  owned _ hid := absurd hid List.not_mem_nil
  stray := List.forall_mem_nil _
  strays_nodup := List.nodup_nil
  outboxes := List.forall_mem_nil _
  keys_nodup := List.nodup_nil
  outboxes_nodup := List.nodup_nil

theorem mem_activeIds : id ∈ s.activeIds ↔ ∃ p ∈ s.peers, p.isActive = true ∧ p.flow.id = id := by
  rw [activeIds, List.mem_map]
  refine exists_congr fun p => ?_
  rw [List.mem_filter, and_assoc]

theorem Owned.outboxIds_nodup (h : s.Owned name strays) : s.outboxIds.Nodup := by
  refine List.pairwise_filterMap.2 ((List.Nodup.of_map _ h.keys_nodup).imp_of_mem ?_)
  rintro entry entry' hentry hentry' hne id hid _ hid' rfl
  exact hne (h.entry_eq hentry hentry' hid hid')

theorem Owned.nodup_owners (h : s.Owned name strays) :
    (s.activeIds ++ strays ++ s.outboxIds).Nodup := by
  obtain ⟨log, counts, hb⟩ := h.balanced
  refine List.nodup_append.2 ⟨List.nodup_append.2 ⟨hb.activeIds_nodup, h.strays_nodup, ?_⟩,
    h.outboxIds_nodup, ?_⟩
  · rintro id hactive _ hstray rfl
    obtain ⟨p, hp, -, hpid⟩ := mem_activeIds.1 hactive
    exact (h.stray id hstray).flow_ne p hp hpid
  · rintro id hid _ houtbox rfl
    obtain hactive | hstray := List.mem_append.1 hid
    · obtain ⟨p, hp, -, rfl⟩ := mem_activeIds.1 hactive
      have hrange := hb.numbered.numbers p hp
      have hneg := (h.range_of_mem_outboxIds houtbox).2
      lia
    · exact (h.stray id hstray).notMem_outboxIds houtbox

/-- The routes are those of the active flows whose runs go on, of the flows that lost their name
while they ran, and of the queues that are known by name. -/
theorem Owned.ids_perm (h : s.Owned name strays) :
    s.node.router.ids.Perm (s.activeIds ++ strays ++ s.outboxIds) := by
  obtain ⟨log, counts, hb⟩ := h.balanced
  refine (List.perm_ext_iff_of_nodup hb.wellFormed.nodup h.nodup_owners).2 fun id => ?_
  rw [List.mem_append, List.mem_append]
  constructor
  · intro hid
    obtain ⟨p, hp, rfl⟩ | hstray | houtbox := h.owned id hid
    · exact .inl (.inl (mem_activeIds.2 ⟨p, hp, (hb.routed_iff hp).1 hid, rfl⟩))
    · exact .inl (.inr hstray)
    · exact .inr houtbox
  · rintro ((hactive | hstray) | houtbox)
    · obtain ⟨p, hp, hrunning, rfl⟩ := mem_activeIds.1 hactive
      exact (hb.routed_iff hp).2 hrunning
    · obtain ⟨number, lines, hserves⟩ := (h.stray id hstray).serves
      exact hserves.mem_ids
    · obtain ⟨entry, hentry, howner⟩ := mem_outboxIds.1 houtbox
      obtain ⟨number, owner, lines, hnumber, -, -, hserves⟩ := h.outboxes entry hentry
      rw [hnumber] at howner
      obtain rfl := Option.some.inj (hserves.idOf_eq.symm.trans howner)
      exact hserves.mem_ids

/-- All queues that are known by name have an identifier. -/
theorem Owned.length_outboxIds (h : s.Owned name strays) :
    s.outboxIds.length = s.outboxes.length := by
  refine List.filterMap_length_eq_length.2 fun entry hentry => ?_
  obtain ⟨owner, howner, -⟩ := h.exists_owner hentry
  rw [howner]
  rfl

end Owners

/-- **Routes never leak.** Whatever is done with a server, in whatever order runs go on, and
wherever they are given up: there is one route for each active flow whose run goes on and for
each queue that was opened without a flow and not given up, and none for any other flow. A flow
that loses its name to another one while it runs counts as running. -/
theorem ids_perm_followAll (name : String) (transform : Transform)
    (nextObject : Formula.ObjectId) (clock : Clock) (steps : List Step) :
    let s := ofNode (.newServer name transform nextObject clock)
    let s' := s.followAll steps
    s'.node.router.ids.Nodup ∧
      s'.node.router.ids.Perm (s'.activeIds ++ s.displacedAll steps ++ s'.outboxIds) ∧
      s'.node.router.size =
        s'.activeIds.length + (s.displacedAll steps).length + s'.outboxes.length ∧
      (∀ p ∈ s'.peers, p.flow.id ∈ s'.node.router.ids ↔
        p.flow.state = .active ∧ ∃ phase, p.presence = .running phase) ∧
      ∀ entry ∈ s'.outboxes, ∃ number owner, entry.2 = .subscriber number ∧
        (owner, number) ∈ s'.node.router.routes := by
  intro s s'
  have howned : s'.Owned name (s.displacedAll steps) :=
    (owned_newServer name transform nextObject clock).followAll steps
  obtain ⟨log, counts, hb⟩ := howned.balanced
  refine ⟨hb.wellFormed.nodup, howned.ids_perm, ?_, fun p hp => ?_, fun entry hentry => ?_⟩
  · rw [Router.size, ← List.length_map Prod.fst, ← howned.length_outboxIds]
    exact howned.ids_perm.length_eq.trans (by rw [List.length_append, List.length_append])
  · rw [hb.routed_iff hp, Peer.isActive_iff]
  · obtain ⟨number, owner, lines, hnumber, -, -, hserves⟩ := howned.outboxes entry hentry
    exact ⟨number, owner, hnumber, hserves.route⟩

end Session

end Parley.Chat
