import Parley.Proofs.Chat.Broadcast
import Parley.Proofs.Chat.Typing

/-!
# Takers of the typed lines

In a client session one flow at most takes the typed lines, however many flows there are, in
whatever order they become active, and whatever becomes of the one that has them. Every other
flow that has had its handshake in a run is refused. What was written to the flow that has them
is, behind the frames of its handshakes, the beginning of the frames for the lines that were
accepted.

- `Session.takers`, `Session.accepted`: who takes the typed lines in a step, and the line that
  is accepted in it.
- `Session.Tended`: what holds of a client session at any time. Every step keeps it
  (`Tended.follow`).
- `Session.Shaking`: a step of a run that is at its handshake. A flow that has had it then takes
  the typed lines, or is refused (`Tended.takers_or_refuses`).
- `Session.typed_of_followAll`: who takes the typed lines, and what is written to each flow.
-/

namespace Parley.Chat

open Wire

/-! ## Peers -/

namespace Peer

variable {name : String} {limit : Nat} {takers : List FlowId} {accepted : List String} {n : Node}
  {p : Peer} {flow : Flow} {requests : List Request}

theorem told_settle {progress : Flow.RunProgress}
    (h : Flow.Told name limit takers accepted n flow progress.presence requests) :
    Flow.Told name limit takers accepted n (p.settle progress flow).flow
      (p.settle progress flow).presence requests := by
  obtain ⟨hflow, hpresence⟩ | ⟨⟨result, rfl⟩, hflow, hpresence⟩ := p.settle_cases progress flow
  · rw [hflow, hpresence]
    exact h
  · rw [hflow, hpresence]
    exact h.drop

theorem told_start (h : p.flow.Tells name limit takers accepted (n.pending .typed) .idle)
    (hname : n.name = name) (hn : n.TakenBy takers accepted) :
    Flow.Told name (limit + 1) takers accepted n (p.start n).1.flow (p.start n).1.presence
      (p.start n).2 :=
  told_settle (Flow.told_start h hname hn)

theorem told_poll (h : p.flow.Tells name limit takers accepted (n.pending .typed) p.presence)
    (hname : n.name = name) (hn : n.TakenBy takers accepted) :
    Flow.Told name limit takers accepted n (p.poll n).1.flow (p.poll n).1.presence
      (p.poll n).2 := by
  unfold poll
  split
  case h_1 phase hpresence =>
    rw [hpresence] at h
    exact told_settle (Flow.told_poll h hname hn)
  case h_2 => exact .of_tells h

/-- A run that is begun, and given up when it has to wait. -/
theorem told_runOnce (h : p.flow.Tells name limit takers accepted (n.pending .typed) p.presence)
    (hidle : p.presence = .idle) (hname : n.name = name) (hn : n.TakenBy takers accepted) :
    Flow.Told name (limit + 1) takers accepted n (p.runOnce n).2.1.flow (p.runOnce n).2.1.presence
      (p.runOnce n).2.2 := by
  rw [hidle] at h
  have hstart := Flow.told_start h hname hn
  unfold runOnce
  generalize p.flow.start n = started at hstart ⊢
  obtain ⟨phase | result, flow, requests⟩ := started
  · have hgiven := Flow.told_abandon hstart.tells (hstart.takenBy hn)
    dsimp only
    rw [hidle]
    exact hstart.append (flow.persists_abandon phase) hgiven
  · dsimp only
    rw [hidle]
    exact hstart

theorem told_abandon (h : p.flow.Tells name limit takers accepted (n.pending .typed) p.presence)
    (hn : n.TakenBy takers accepted) :
    Flow.Told name limit takers accepted n p.abandon.1.flow p.abandon.1.presence p.abandon.2 := by
  unfold abandon
  split
  case h_1 phase hpresence =>
    rw [hpresence] at h
    have hgiven := Flow.told_abandon h hn
    dsimp only
    split
    · exact hgiven
    · exact hgiven.drop
  case h_2 => exact .of_tells h

/-! ### What a run leaves of its flow -/

theorem isIntroduced_settle (p : Peer) (progress : Flow.RunProgress) (flow : Flow) :
    (p.settle progress flow).flow.isIntroduced = flow.isIntroduced := by
  obtain ⟨hflow, -⟩ | ⟨-, hflow, -⟩ := p.settle_cases progress flow
  · rw [hflow]
  · rw [hflow]
    rfl

theorem isIntroduced_runOnce (p : Peer) (n : Node) :
    (p.runOnce n).2.1.flow.isIntroduced = (p.flow.start n).2.1.isIntroduced := by
  unfold runOnce
  generalize p.flow.start n = started
  obtain ⟨phase | result, flow, requests⟩ := started
  · cases phase <;> rfl
  · rfl

/-- Who has taken the typed lines has them also if the run is given up. -/
theorem takers_runOnce (h : n.takers (p.flow.start n).2.2 = [(p.flow.start n).2.1.id]) :
    n.takers (p.runOnce n).2.2 = [(p.runOnce n).2.1.flow.id] := by
  unfold runOnce
  generalize p.flow.start n = started at h ⊢
  obtain ⟨phase | result, flow, requests⟩ := started
  · have htaken : ¬ (n.serveAll requests).IsFree :=
      Node.not_isFree_of_takers (by rw [h]; exact List.cons_ne_nil _ _)
    show n.takers (requests ++ (flow.abandon phase).2) = [(flow.abandon phase).1.id]
    rw [Node.takers_append, h, Node.takers_of_taken htaken, (flow.persists_abandon phase).id,
      List.append_nil]
  · exact h

end Peer

namespace Session

/-! ## Takers -/

/-- What is asked of the node in a step, also for a queue that is opened without a flow. -/
def asks (s : Session) : Step → List Request
  | .perform (.openOutbox _) => [.openOutbox s.nextOutbox]
  | step => s.requests step

/-- Who takes the typed lines in a step: the flow of this number, or a queue that is opened
without a flow. -/
def takers (s : Session) (step : Step) : List FlowId :=
  s.node.takers (s.asks step)

/-- Who takes the typed lines. -/
def takersAll (s : Session) : List Step → List FlowId
  | [] => []
  | step :: steps => s.takers step ++ (s.follow step).takersAll steps

/-- The line that is typed in a step, if the queue takes it. -/
def accepted (s : Session) : Step → List String
  | .perform (.typeLine line) => if (s.node.typeLine line).1 = some true then [line] else []
  | _ => []

/-- The lines that are accepted, in the order in which they are typed. -/
def acceptedAll (s : Session) : List Step → List String
  | [] => []
  | step :: steps => s.accepted step ++ (s.follow step).acceptedAll steps

/-- What every flow of a client session has written, if these have taken the typed lines and
these lines were accepted, with at most so many handshakes begun. -/
structure Tended (name : String) (takers : List FlowId) (accepted : List String)
    (counts : String → Nat) (s : Session) : Prop where
  node : s.node.TakenBy takers accepted
  named : s.node.name = name
  distinct : s.Distinct
  numbered : s.Numbered
  sole : takers.length ≤ 1
  known : ∀ id ∈ takers, id ≠ 0 ∧ id < s.nextFlow
  tells : ∀ p ∈ s.peers,
    p.flow.Tells name (counts p.name) takers accepted (s.node.pending .typed) p.presence
  introduced : ∀ p ∈ s.peers, p.flow.id ∈ takers → p.flow.isIntroduced = true
  nextOutbox_neg : s.nextOutbox < 0
  outboxes : ∀ entry ∈ s.outboxes, ∃ id ∈ takers, id < 0

section Tending

variable {name : String} {takers : List FlowId} {accepted : List String}
  {counts counts' : String → Nat} {limit : Nat} {s : Session} {p p' q : Peer} {step : Step}
  {requests : List Request} {next : FlowId}

/-! ### What one flow does -/

/-- A run begins. A connection becomes a flow, or turns out to have been disposed of. -/
theorem Tended.told_run (h : s.Tended name takers accepted counts) (hp : p ∈ s.peers) :
    Flow.Told name (counts p.name + 1) takers accepted s.node
      (p.run s.nextFlow s.cancelled s.node).1.flow
      (p.run s.nextFlow s.cancelled s.node).1.presence
      (p.run s.nextFlow s.cancelled s.node).2 := by
  have htells := h.tells p hp
  unfold Peer.run
  split
  case h_1 hidle =>
    rw [hidle] at htells
    exact Peer.told_start htells h.named h.node
  case h_2 hconnected =>
    rw [hconnected] at htells
    split
    case isTrue =>
      have hidle : p.flow.Tells name (counts p.name + 1) takers accepted
          (s.node.pending .typed) .idle :=
        htells.of_free (.inr rfl) rfl fun _ haccount =>
          Flow.account_mono (Flow.account_idle_of_connected haccount) (Nat.le_succ _)
      have hfinished : Flow.Told name (counts p.name + 1) takers accepted s.node p.flow
          (Flow.RunProgress.finished (.error .disposed)).presence [] := .of_tells hidle
      exact Peer.told_settle hfinished
    case isFalse =>
      exact Peer.told_start
        (p := { p with flow := { p.flow with id := s.nextFlow, cancelled := s.cancelled } })
        (htells.of_connected s.cancelled) h.named h.node
  case h_3 => exact .of_tells (htells.mono (Nat.le_succ _))

/-- Whatever the flow of a peer does, it has an account. -/
theorem Tended.told_turn (h : s.Tended name takers accepted counts) (hp : p ∈ s.peers)
    (hturn : Turn s p step p' requests next) :
    Flow.Told name (counts p.name + step.attempts p.name) takers accepted s.node p'.flow
      p'.presence requests := by
  have htells := h.tells p hp
  cases hturn with
  | poll => exact Peer.told_poll htells h.named h.node
  | abandon => exact Peer.told_abandon htells h.node
  | run =>
    rw [Step.attempts, if_pos rfl]
    exact h.told_run hp
  | runOnce hidle =>
    rw [Step.attempts, if_pos rfl]
    exact Peer.told_runOnce htells hidle h.named h.node
  | farEnd event => exact .of_tells (htells.stays (p.flow.stays_happen event))
  | handshake hidle =>
    rw [hidle] at htells
    rw [Step.attempts, if_pos rfl, h.named, hidle]
    exact .of_tells (htells.of_free (.inl rfl) (Flow.id_handshake name p.flow)
      fun _ => Flow.account_handshake)
  | closeFlow hidle =>
    rw [hidle] at htells ⊢
    exact .of_tells (htells.of_free (.inl rfl) p.flow.ends_close.id
      fun _ haccount => Flow.account_of_ends haccount p.flow.ends_close)
  | requestClose => exact .of_tells (htells.stays p.flow.stays_requestClose)
  | dropFlow hfree =>
    exact .of_tells (htells.of_free hfree rfl fun _ haccount => Flow.account_drop haccount hfree)
  | disposeConnection hconnected =>
    rw [hconnected] at htells ⊢
    exact .of_tells (htells.of_free (.inr rfl) rfl fun _ => Flow.account_drop_connected)

/-- A flow that took the typed lines has had its handshake. -/
theorem Tended.introduced_turn (h : s.Tended name takers accepted counts) (hp : p ∈ s.peers)
    (hturn : Turn s p step p' requests next) :
    p'.flow.id ∈ takers → p'.flow.isIntroduced = true := by
  intro hmem
  obtain hpersists | hnew := hturn.persists
  · exact hpersists.introduced (h.introduced p hp (hpersists.id ▸ hmem))
  · have hlt := (h.known _ hmem).2
    lia

/-- All accounts are kept when one flow does something. -/
theorem Tended.serve (h : s.Tended name takers accepted counts)
    (hnumbers : s.Numbers p' requests next)
    (htold : Flow.Told name limit takers accepted s.node p'.flow p'.presence requests)
    (hintroduced : p'.flow.id ∈ takers → p'.flow.isIntroduced = true)
    (hlimit : counts' p'.name = limit)
    (hcounts : ∀ other, other ≠ p'.name → counts' other = counts other) :
    Tended name (takers ++ s.node.takers requests) accepted counts'
      ({ s with nextFlow := next }.serve p' requests) := by
  have hle := hnumbers.next_le
  have hzero : takers ++ s.node.takers requests = [p'.flow.id] → p'.flow.id ≠ 0 := by
    intro hown hzero
    obtain ⟨rfl, -⟩ := hnumbers.unnumbered hzero
    rw [Node.takers, List.append_nil] at hown
    exact (h.known p'.flow.id (hown ▸ List.mem_singleton_self _)).1 hzero
  exact
    { node := htold.takenBy h.node
      named := (Node.name_serveAll s.node requests).trans h.named
      distinct := distinct_setPeer h.distinct p'
      numbered := hnumbers.numbered h.numbered
      sole := by
        obtain ⟨-, hnone⟩ | hown := htold.minds
        · rw [hnone, List.append_nil]
          exact h.sole
        · rw [hown]
          exact Nat.le_refl 1
      known := fun id hid => by
        obtain ⟨-, hnone⟩ | hown := htold.minds
        · rw [hnone, List.append_nil] at hid
          obtain ⟨hne, hlt⟩ := h.known id hid
          exact ⟨hne, Int.lt_of_lt_of_le hlt hle⟩
        · rw [hown, List.mem_singleton] at hid
          subst hid
          exact ⟨hzero hown, (hnumbers.id_range h.numbered).2⟩
      tells := fun q hq => by
        rcases mem_setPeer.1 hq with rfl | ⟨hq, hname⟩
        · exact hlimit ▸ htold.tells
        · have htells := h.tells q hq
          rw [hcounts q.name hname]
          obtain ⟨hsame, hnone⟩ | hown := htold.minds
          · show Flow.Tells _ _ _ _ ((s.node.serveAll requests).pending .typed) q.flow q.presence
            rwa [hsame, hnone, List.append_nil]
          · refine htells.of_notMem (List.subset_append_left ..) ?_ _
            rw [hown, List.mem_singleton]
            exact hnumbers.id_ne h.numbered hq hname (hzero hown)
      introduced := fun q hq hid => by
        rcases mem_setPeer.1 hq with rfl | ⟨hq, hname⟩
        · obtain hid | hid := List.mem_append.1 hid
          · exact hintroduced hid
          · exact htold.introduced (List.ne_nil_of_mem hid)
        · obtain ⟨-, hnone⟩ | hown := htold.minds
          · rw [hnone, List.append_nil] at hid
            exact h.introduced q hq hid
          · rw [hown, List.mem_singleton] at hid
            exact absurd hid (hnumbers.id_ne h.numbered hq hname (hzero hown))
      nextOutbox_neg := h.nextOutbox_neg
      outboxes := fun entry hentry => by
        obtain ⟨id, hid, hneg⟩ := h.outboxes entry hentry
        exact ⟨id, List.mem_append_left _ hid, hneg⟩ }

/-! ### What is done with the node -/

theorem Tended.mono (h : s.Tended name takers accepted counts)
    (hle : ∀ other, counts other ≤ counts' other) : s.Tended name takers accepted counts' :=
  { h with tells := fun q hq => (h.tells q hq).mono (hle q.name) }

theorem Tended.of_leavesTyped (h : s.Tended name takers accepted counts) {n' : Node}
    (hleaves : s.node.LeavesTyped n') :
    Tended name takers accepted counts { s with node := n' } :=
  { h with
    node :=
      { client := fun hserver => h.node.client (hleaves.isServer_iff.1 hserver)
        free_iff := hleaves.free_iff.trans h.node.free_iff
        waiting := fun hnil => (h.node.waiting hnil).trans hleaves.pending_eq.symm }
    named := hleaves.name_eq.trans h.named
    numbered := h.numbered.congr rfl rfl
    tells := fun q hq => by
      show Flow.Tells _ _ _ _ (n'.pending .typed) q.flow q.presence
      rw [hleaves.pending_eq]
      exact h.tells q hq }

/-- The typed lines were taken by a queue without a flow, with which anything may be done. -/
theorem Tended.serveAll (h : s.Tended name takers accepted counts) (hneg : ∃ id ∈ takers, id < 0)
    (requests : List Request) :
    Tended name takers accepted counts { s with node := s.node.serveAll requests } := by
  obtain ⟨id, hid, hneg⟩ := hneg
  have hsome : takers ≠ [] := List.ne_nil_of_mem hid
  have htaken : ¬ s.node.IsFree := fun hfree => hsome (h.node.free_iff.1 hfree)
  exact
    { h with
      node := ⟨Node.not_isServer_serveAll h.node.client requests,
        iff_of_false (Node.not_isFree_serveAll htaken requests) hsome,
        fun hnil => absurd hnil hsome⟩
      named := (Node.name_serveAll s.node requests).trans h.named
      numbered := h.numbered.congr rfl rfl
      tells := fun q hq => by
        refine (h.tells q hq).of_notMem (List.Subset.refl _) (fun hown => ?_) _
        -- Only one has taken the typed lines, and flows have no such number.
        have hnonneg := (h.numbered.numbers q hq).1
        obtain ⟨taker, rfl⟩ := List.length_eq_one_iff.1
          (Nat.le_antisymm h.sole (List.length_pos_of_mem hid))
        have hsame := (List.mem_singleton.1 hown).trans (List.mem_singleton.1 hid).symm
        lia }

theorem Tended.typeLine (h : s.Tended name takers accepted counts) (line : String) :
    Tended name takers (accepted ++ s.accepted (.perform (.typeLine line))) counts
      { s with node := (s.node.typeLine line).2 } := by
  rw [Session.accepted]
  obtain ⟨htrue, hclient, hfree, hpending⟩ | ⟨hfalse, hsame⟩ :=
    Node.typeLine_cases h.node.client line
  · rw [if_pos htrue]
    exact
      { h with
        node := ⟨hclient, hfree.trans h.node.free_iff, fun hnil => by
          rw [hpending, h.node.waiting hnil]⟩
        named := (Node.name_typeLine line s.node).trans h.named
        numbered := h.numbered.congr rfl rfl
        tells := fun q hq => by
          show Flow.Tells _ _ _ _ ((s.node.typeLine line).2.pending .typed) q.flow q.presence
          rw [hpending]
          exact (h.tells q hq).accept line }
  · rw [if_neg hfalse, List.append_nil, hsame]
    exact h

/-! ### Queues without a flow -/

/-- A queue that is opened without a flow takes the typed lines, or is refused. -/
theorem Tended.openOutbox (h : s.Tended name takers accepted counts) (key : String) :
    (s.openOutbox key).2.Tended name (takers ++ s.node.takers [.openOutbox s.nextOutbox]) accepted
      counts := by
  by_cases hfree : s.node.IsFree
  case neg =>
    rw [Node.takers_of_taken hfree, List.append_nil, Session.openOutbox,
      Node.openOutbox_of_taken h.node.client hfree]
    exact h
  case pos =>
    obtain rfl := h.node.free_iff.1 hfree
    obtain ⟨n', hopen, htaken, hclient, hpending⟩ :=
      Node.openOutbox_of_isFree hfree s.nextOutbox
    have hname : n'.name = s.node.name := by
      have hserved : s.node.serve (.openOutbox s.nextOutbox) = n' := congrArg Prod.snd hopen
      rw [← hserved, Node.name_serve]
    have hnone : s.outboxes = [] := by
      refine List.eq_nil_iff_forall_not_mem.2 fun entry hentry => ?_
      obtain ⟨id, hid, -⟩ := h.outboxes entry hentry
      exact absurd hid List.not_mem_nil
    have hopened : (s.openOutbox key).2 =
        { s with
          node := n'
          nextOutbox := s.nextOutbox - 1
          outboxes := [(key, .typed)] } := by
      rw [Session.openOutbox, hopen]
      simp only [Session.closeOutbox, hnone, List.lookup_nil]
    have htakers : s.node.takers [.openOutbox s.nextOutbox] = [s.nextOutbox] := by
      rw [Node.takers, Node.taker_of_isFree hfree]
      rfl
    have hneg := h.nextOutbox_neg
    have hpos := h.numbered.next_pos
    -- No flow has the number of such a queue.
    have hnot : ∀ q ∈ s.peers, q.flow.id ∉ [s.nextOutbox] := by
      intro q hq hmem
      have hnonneg := (h.numbered.numbers q hq).1
      rw [List.mem_singleton] at hmem
      lia
    rw [hopened, htakers, List.nil_append]
    exact
      { node := ⟨hclient, iff_of_false htaken (List.cons_ne_nil _ _),
          fun hnil => absurd hnil (List.cons_ne_nil _ _)⟩
        named := hname.trans h.named
        distinct := h.distinct
        numbered := h.numbered.congr rfl rfl
        sole := Nat.le_refl 1
        known := List.forall_mem_singleton.2 ⟨by lia, by show s.nextOutbox < s.nextFlow; lia⟩
        tells := fun q hq => (h.tells q hq).of_notMem (List.nil_subset _) (hnot q hq) _
        introduced := fun q hq hid => absurd hid (hnot q hq)
        nextOutbox_neg := by show s.nextOutbox - 1 < 0; lia
        outboxes := fun _ _ => ⟨s.nextOutbox, List.mem_singleton_self _, hneg⟩ }

theorem Tended.nextLine (h : s.Tended name takers accepted counts) (key : String) :
    (s.nextLine key).2.Tended name takers accepted counts := by
  unfold Session.nextLine
  split
  case h_1 outbox hlookup =>
    have hneg := h.outboxes _ (mem_of_lookup hlookup)
    unfold Node.nextLine
    cases s.node.pending outbox with
    | nil => cases s.node.isEnded outbox <;> exact h
    | cons line lines => exact h.serveAll hneg [.setPending outbox lines]
  case h_2 => exact h

theorem Tended.closeOutbox (h : s.Tended name takers accepted counts) (key : String) :
    (s.closeOutbox key).Tended name takers accepted counts := by
  unfold Session.closeOutbox
  split
  case h_1 outbox hlookup =>
    have hneg := h.outboxes _ (mem_of_lookup hlookup)
    have hclosed := h.serveAll hneg [.closeOutbox outbox]
    exact
      { hclosed with
        numbered := hclosed.numbered.congr rfl rfl
        outboxes := fun entry hentry => hclosed.outboxes entry (List.mem_of_mem_filter hentry) }
  case h_2 => exact h

/-! ### Steps -/

/-- A flow that is opened has written nothing. -/
theorem tells_create (name : String) (limit : Nat) (takers : List FlowId)
    (accepted waiting : List String) (id : FlowId) (cancelled : Bool) {presence : Presence}
    (hpresence : presence = .connected ∨ presence = .idle) :
    (Flow.create id .idle cancelled).Tells name limit takers accepted waiting presence :=
  .apart List.nil_prefix (fun _ => rfl) (Flow.account_create
    ⟨List.not_mem_nil, List.forall_mem_nil _⟩ hpresence name limit cancelled)

theorem Tended.openFlow (h : s.Tended name takers accepted counts) (peer : String) :
    (s.openFlow peer).2.Tended name takers accepted counts := by
  have hserved : (s.openFlow peer).2.Tended name (takers ++ s.node.takers []) accepted counts :=
    h.serve (h.numbered.numbers_openFlow peer)
      (.of_tells (tells_create _ _ _ _ _ s.nextFlow s.cancelled (.inr rfl)))
      (fun hid => absurd (h.known _ hid).2 (Int.lt_irrefl _)) rfl fun _ _ => rfl
  rwa [Node.takers, List.append_nil] at hserved

theorem Tended.openConnection (h : s.Tended name takers accepted counts) (peer : String) :
    (s.openConnection peer).2.Tended name takers accepted counts := by
  have hserved :
      (s.openConnection peer).2.Tended name (takers ++ s.node.takers []) accepted counts :=
    h.serve (Numbered.numbers_openConnection peer)
      (.of_tells (tells_create _ _ _ _ _ 0 s.cancelled (.inl rfl)))
      (fun hid => absurd rfl (h.known _ hid).1) rfl fun _ _ => rfl
  rwa [Node.takers, List.append_nil] at hserved

theorem Tended.cancel (h : s.Tended name takers accepted counts) :
    Tended name takers accepted counts
      { s with
        cancelled := true
        peers := s.peers.map fun p => { p with flow := p.flow.cancel } } where
  node := h.node
  named := h.named
  distinct := by
    show ((s.peers.map _).map Peer.name).Nodup
    rw [List.map_map]
    exact h.distinct
  numbered := h.numbered.cancel
  sole := h.sole
  known := h.known
  tells q hq := by
    obtain ⟨p, hp, rfl⟩ := List.mem_map.1 hq
    exact (h.tells p hp).stays p.flow.stays_cancel
  introduced q hq := by
    obtain ⟨p, hp, rfl⟩ := List.mem_map.1 hq
    exact h.introduced p hp
  nextOutbox_neg := h.nextOutbox_neg
  outboxes := h.outboxes

/-- All accounts are kept in every step in which no line is typed, and no queue is opened without
a flow. -/
theorem Tended.follow_of_ne (h : s.Tended name takers accepted counts)
    (htype : ∀ line, step ≠ .perform (.typeLine line))
    (hopen : ∀ key, step ≠ .perform (.openOutbox key)) :
    (s.follow step).Tended name (takers ++ s.node.takers (s.requests step)) accepted
      (fun other => counts other + step.attempts other) := by
  have heffect := s.effect_follow step
  generalize s.requests step = requests, s.follow step = s' at heffect ⊢
  -- In most steps nobody takes the typed lines, and no handshake begins.
  have hmono : ∀ {s' : Session}, s'.Tended name takers accepted counts →
      s'.Tended name (takers ++ s.node.takers []) accepted
        (fun other => counts other + step.attempts other) := by
    intro s' hs'
    rw [Node.takers, List.append_nil]
    exact hs'.mono fun other => Nat.le_add_right _ _
  cases heffect with
  | still => exact hmono h
  | @turn p p' _ _ next hp hturn =>
    refine h.serve (h.numbered.numbers_turn hp hturn) (h.told_turn hp hturn)
      (h.introduced_turn hp hturn) (by rw [hturn.name_eq]) fun other hne => ?_
    rw [hturn.attempts_of_ne (hturn.name_eq ▸ hne), Nat.add_zero]
  | openFlow peer => exact hmono (h.openFlow peer)
  | openConnection peer => exact hmono (h.openConnection peer)
  | typeLine line => exact absurd rfl (htype line)
  | endTyping => exact hmono (h.of_leavesTyped s.node.leavesTyped_endTyping)
  | closeConsole => exact hmono (h.of_leavesTyped s.node.leavesTyped_closeConsole)
  | cancel => exact hmono h.cancel
  | broadcast line => exact hmono (h.of_leavesTyped (s.node.leavesTyped_broadcast line))
  | consume sender line =>
    exact hmono (h.of_leavesTyped (s.node.leavesTyped_consume sender line))
  | openOutbox key => exact absurd rfl (hopen key)
  | nextLine key => exact hmono (h.nextLine key)
  | closeOutbox key => exact hmono (h.closeOutbox key)

theorem asks_of_ne (s : Session) (hopen : ∀ key, step ≠ .perform (.openOutbox key)) :
    s.asks step = s.requests step := by
  unfold asks
  split
  case h_1 key => exact absurd rfl (hopen key)
  case h_2 => rfl

theorem accepted_of_ne (s : Session) (htype : ∀ line, step ≠ .perform (.typeLine line)) :
    s.accepted step = [] := by
  unfold Session.accepted
  split
  case h_1 line => exact absurd rfl (htype line)
  case h_2 => rfl

/-- Every step keeps all accounts. -/
theorem Tended.follow (h : s.Tended name takers accepted counts) (step : Step) :
    (s.follow step).Tended name (takers ++ s.takers step) (accepted ++ s.accepted step)
      (fun other => counts other + step.attempts other) := by
  by_cases htype : ∃ line, step = .perform (.typeLine line)
  case pos =>
    obtain ⟨line, rfl⟩ := htype
    have htyped := h.typeLine line
    have hnone : s.takers (.perform (.typeLine line)) = [] := rfl
    rw [← perform_typeLine] at htyped
    rw [hnone, List.append_nil]
    exact htyped
  case neg =>
    rw [s.accepted_of_ne fun line heq => htype ⟨line, heq⟩, List.append_nil]
    by_cases hopen : ∃ key, step = .perform (.openOutbox key)
    case pos =>
      obtain ⟨key, rfl⟩ := hopen
      exact h.openOutbox key
    case neg =>
      have hne : ∀ key, step ≠ .perform (.openOutbox key) := fun key heq => hopen ⟨key, heq⟩
      rw [Session.takers, s.asks_of_ne hne]
      exact h.follow_of_ne (fun line heq => htype ⟨line, heq⟩) hne

theorem Tended.followAll (h : s.Tended name takers accepted counts) (steps : List Step) :
    (s.followAll steps).Tended name (takers ++ s.takersAll steps)
      (accepted ++ s.acceptedAll steps) (fun other => counts other + attempts other steps) := by
  induction steps generalizing s takers accepted counts with
  | nil =>
    rw [takersAll, acceptedAll, List.append_nil, List.append_nil]
    exact h
  | cons step steps ih =>
    have hrest := ih (h.follow step)
    rw [List.append_assoc, List.append_assoc] at hrest
    refine hrest.mono fun other => ?_
    exact Nat.le_of_eq (Nat.add_assoc ..)

theorem tended_newClient (name : String) :
    (ofNode (.newClient name)).Tended name [] [] (fun _ => 0) where
  node := ⟨not_false, iff_of_true rfl rfl, fun _ => rfl⟩
  named := rfl
  distinct := distinct_ofNode _
  numbered := numbered_ofNode _
  sole := Nat.zero_le 1
  known := List.forall_mem_nil _
  tells := List.forall_mem_nil _
  introduced := List.forall_mem_nil _
  nextOutbox_neg := Int.negSucc_lt_zero 0
  outboxes := List.forall_mem_nil _

end Tending

/-! ## Handshakes in runs -/

/-- In this step the run of a peer begins, or goes on with its handshake; and it was not asked
to stop. -/
inductive Shaking (s : Session) (p : Peer) : Step → Prop
  | poll {stage : HandshakeStage} (hpresence : p.presence = .running (.handshaking stage))
      (hgo : p.flow.cancelled = false) : Shaking s p (.poll p.name)
  | run (hidle : p.presence = .idle) (hcreated : p.flow.state = .created)
      (hgo : p.flow.cancelled = false) : Shaking s p (.perform (.run p.name))
  | connect (hconnected : p.presence = .connected) (hcreated : p.flow.state = .created)
      (hopen : p.flow.isDisposed = false) (hgo : s.cancelled = false) :
      Shaking s p (.perform (.run p.name))
  | runOnce (hidle : p.presence = .idle) (hcreated : p.flow.state = .created)
      (hgo : p.flow.cancelled = false) : Shaking s p (.perform (.runOnce p.name))

/-- How the run of a peer has ended after a step: what is answered if it is not kept with the
peer. -/
def runResult (s : Session) (peer : String) : Step → Option FlowResult
  | .perform (.runOnce name) =>
    match (s.perform (.runOnce name)).1 with
    | .attempt (.done result) => some result
    | _ => none
  | step => ((s.follow step).peer? peer).bind Peer.result

/-- In this step the run of a peer ends, since the typed lines were taken before. -/
structure Refuses (s : Session) (name : String) (limit : Nat) (step : Step) (p : Peer) :
    Prop where
  takers_eq : s.takers step = []
  result_eq : s.runResult p.name step = some (.error .inputUnavailable)
  ended : ∀ phase, p.presence ≠ .running phase
  flow : p.flow.Refused name limit

section Handshakes

variable {name : String} {takers : List FlowId} {accepted : List String}
  {counts : String → Nat} {limit : Nat} {s : Session} {p q : Peer} {step : Step}

theorem peer?_serve (hs : s.Distinct) (p : Peer) (requests : List Request) :
    (s.serve p requests).peer? p.name = some p :=
  peer?_of_mem (distinct_setPeer hs p) mem_setPeer_self

/-- A run in which a flow has had its handshake. -/
theorem takers_or_refuses_of_admits {result : Flow.RunProgress × Flow × List Request}
    (h : Flow.Admits name limit s.node result) (hasks : s.asks step = result.2.2)
    (hresult : s.runResult (p.settle result.1 result.2.1).name step =
      (p.settle result.1 result.2.1).result) :
    s.takers step = [(p.settle result.1 result.2.1).flow.id] ∨
      s.Refuses name limit step (p.settle result.1 result.2.1) := by
  rw [Session.takers, hasks, Peer.id_settle]
  obtain ⟨progress, flow, requests⟩ := result
  cases h with
  | takes htakers => exact .inl htakers
  | refused htakers hended hrefused =>
    right
    obtain rfl : progress = .finished (.error .inputUnavailable) := hended
    have hnone : s.takers step = [] := by
      rw [Session.takers, hasks]
      exact htakers
    have hkept := hresult.trans (Peer.result_afterRun { p with flow } _)
    obtain ⟨hflow, hpresence⟩ | ⟨-, hflow, hpresence⟩ :=
      p.settle_cases (.finished (.error .inputUnavailable)) flow
    · refine ⟨hnone, hkept, fun phase hrunning => ?_, ?_⟩
      · cases hpresence.symm.trans hrunning
      · rw [hflow]
        exact hrefused
    · refine ⟨hnone, hkept, fun phase hrunning => ?_, ?_⟩
      · cases hpresence.symm.trans hrunning
      · rw [hflow]
        exact hrefused.drop

/-- The same for the peer that is found after the step. -/
theorem takers_or_refuses_of_serve {s' : Session} {peer : String}
    {result : Flow.RunProgress × Flow × List Request} (hs' : s'.Distinct) (hname : p.name = peer)
    (hfollow : s.follow step = s'.serve (p.settle result.1 result.2.1) result.2.2)
    (hasks : s.asks step = result.2.2)
    (hresult : s.runResult peer step = ((s.follow step).peer? peer).bind Peer.result)
    (hadmits : result.2.1.isIntroduced = true → Flow.Admits name limit s.node result)
    (hq : (s.follow step).peer? peer = some q) (hintroduced : q.flow.isIntroduced = true) :
    s.takers step = [q.flow.id] ∨ s.Refuses name limit step q := by
  have hserved := peer?_serve hs' (p.settle result.1 result.2.1) result.2.2
  have hsettled : (p.settle result.1 result.2.1).name = peer := (name_settle ..).trans hname
  rw [hsettled, ← hfollow, hq] at hserved
  obtain rfl : q = p.settle result.1 result.2.1 := Option.some.inj hserved
  rw [Peer.isIntroduced_settle] at hintroduced
  refine takers_or_refuses_of_admits (hadmits hintroduced) hasks ?_
  rw [hsettled, hresult, hq]
  rfl

/-- A run that goes on with its handshake. -/
theorem Tended.takers_or_refuses_poll {stage : HandshakeStage}
    (h : s.Tended name takers accepted counts) (hp : p ∈ s.peers)
    (hpresence : p.presence = .running (.handshaking stage)) (hgo : p.flow.cancelled = false)
    (hq : (s.follow (.poll p.name)).peer? p.name = some q)
    (hintroduced : q.flow.isIntroduced = true) :
    s.takers (.poll p.name) = [q.flow.id] ∨
      s.Refuses name (counts p.name) (.poll p.name) q := by
  have htells := h.tells p hp
  rw [hpresence] at htells
  have hpoll : p.poll s.node =
      (p.settle (p.flow.poll (.handshaking stage) s.node).1
        (p.flow.poll (.handshaking stage) s.node).2.1,
        (p.flow.poll (.handshaking stage) s.node).2.2) := by
    unfold Peer.poll
    rw [hpresence]
  have hfollow := follow_poll h.distinct hp
  have hasks := requests_poll h.distinct hp
  rw [hpoll] at hfollow hasks
  exact takers_or_refuses_of_serve h.distinct rfl hfollow hasks rfl
    (Flow.admits_poll htells h.named h.node.client hgo) hq hintroduced

/-- A run that begins, of an idle flow or of a connection which becomes a flow. -/
theorem Tended.takers_or_refuses_run (h : s.Tended name takers accepted counts) (hp : p ∈ s.peers)
    (p' : Peer) (hname : p'.name = p.name)
    (hrun : p.run s.nextFlow s.cancelled s.node = p'.start s.node)
    (htells : p'.flow.Tells name (counts p.name) takers accepted (s.node.pending .typed) .idle)
    (hcreated : p'.flow.state = .created) (hgo : p'.flow.cancelled = false)
    (hq : (s.follow (.perform (.run p.name))).peer? p.name = some q)
    (hintroduced : q.flow.isIntroduced = true) :
    s.takers (.perform (.run p.name)) = [q.flow.id] ∨
      s.Refuses name (counts p.name + 1) (.perform (.run p.name)) q := by
  have hfollow : s.follow (.perform (.run p.name)) =
      { s with nextFlow := if p.isUnnumbered then s.nextFlow + 1 else s.nextFlow }.serve
        (p.run s.nextFlow s.cancelled s.node).1 (p.run s.nextFlow s.cancelled s.node).2 :=
    follow_run h.distinct hp
  have hdistinct : Distinct
      { s with nextFlow := if p.isUnnumbered then s.nextFlow + 1 else s.nextFlow } := h.distinct
  have hasks := requests_run h.distinct hp
  rw [hrun] at hfollow hasks
  exact takers_or_refuses_of_serve hdistinct hname hfollow hasks rfl
    (Flow.admits_start htells h.named h.node.client hcreated hgo) hq hintroduced

/-- A run that is begun, and given up when it has to wait. -/
theorem Tended.takers_or_refuses_runOnce (h : s.Tended name takers accepted counts)
    (hp : p ∈ s.peers) (hidle : p.presence = .idle) (hcreated : p.flow.state = .created)
    (hgo : p.flow.cancelled = false)
    (hq : (s.follow (.perform (.runOnce p.name))).peer? p.name = some q)
    (hintroduced : q.flow.isIntroduced = true) :
    s.takers (.perform (.runOnce p.name)) = [q.flow.id] ∨
      s.Refuses name (counts p.name + 1) (.perform (.runOnce p.name)) q := by
  have htells := h.tells p hp
  rw [hidle] at htells
  have hperform := perform_runOnce h.distinct hp hidle
  have hasks : s.asks (.perform (.runOnce p.name)) = (p.runOnce s.node).2.2 :=
    requests_runOnce h.distinct hp hidle
  have hserved := peer?_serve h.distinct (p.runOnce s.node).2.1 (p.runOnce s.node).2.2
  rw [name_runOnce] at hserved
  rw [Session.follow, hperform] at hq
  obtain rfl : (p.runOnce s.node).2.1 = q := Option.some.inj (hserved.symm.trans hq)
  rw [Peer.isIntroduced_runOnce] at hintroduced
  obtain htakers | ⟨htakers, hended, hrefused⟩ :=
    Flow.admits_start htells h.named h.node.client hcreated hgo hintroduced
  · left
    rw [Session.takers, hasks]
    exact Peer.takers_runOnce htakers
  · right
    have hrunOnce : p.runOnce s.node =
        (.done (.error .inputUnavailable), { p with flow := (p.flow.start s.node).2.1 },
          (p.flow.start s.node).2.2) := by
      rw [Peer.runOnce]
      generalize p.flow.start s.node = started at hended
      obtain ⟨progress, flow, requests⟩ := started
      obtain rfl : progress = .finished (.error .inputUnavailable) := hended
      rfl
    rw [hrunOnce] at hasks ⊢
    refine ⟨by rw [Session.takers, hasks]; exact htakers, ?_, fun phase hrunning => ?_, hrefused⟩
    · show (match (s.perform (.runOnce p.name)).1 with
        | .attempt (.done result) => some result
        | _ => none) = _
      rw [hperform, Session.runOnce, hrunOnce]
    · cases hidle.symm.trans hrunning

/-- A flow that has had its handshake in a run takes the typed lines, or is refused. -/
theorem Tended.takers_or_refuses (h : s.Tended name takers accepted counts) (hp : p ∈ s.peers)
    (hshaking : s.Shaking p step) (hq : (s.follow step).peer? p.name = some q)
    (hintroduced : q.flow.isIntroduced = true) :
    s.takers step = [q.flow.id] ∨
      s.Refuses name (counts p.name + step.attempts p.name) step q := by
  have htells := h.tells p hp
  cases hshaking with
  | poll hpresence hgo => exact h.takers_or_refuses_poll hp hpresence hgo hq hintroduced
  | run hidle hcreated hgo =>
    rw [hidle] at htells
    rw [Step.attempts, if_pos rfl]
    exact h.takers_or_refuses_run hp p rfl (Peer.run_of_idle hidle ..) htells hcreated hgo hq
      hintroduced
  | connect hconnected hcreated hopen hgo =>
    rw [hconnected] at htells
    rw [Step.attempts, if_pos rfl]
    exact h.takers_or_refuses_run hp
      { p with flow := { p.flow with id := s.nextFlow, cancelled := s.cancelled } } rfl
      (Peer.run_of_connected hconnected hopen ..) (htells.of_connected s.cancelled) hcreated hgo
      hq hintroduced
  | runOnce hidle hcreated hgo =>
    rw [Step.attempts, if_pos rfl]
    exact h.takers_or_refuses_runOnce hp hidle hcreated hgo hq hintroduced

end Handshakes

/-- **Typed lines are for one flow.** Whatever is done with a client, whatever runs are given up,
and in whatever order runs go on, the typed lines are taken once at most. A flow that has not
taken them sends no lines, and writes nothing behind its handshakes. What was written to the one
that has taken them is, behind its handshakes, the beginning of the frames for the lines that
were accepted, in the order in which they were typed; empty lines have no frames. Any flow that
has had its handshake in a run takes the typed lines at once, or they had been taken, and its run
ends with that finding when it has written signature and name. -/
theorem typed_of_followAll (name : String) (steps : List Step) :
    ((ofNode (.newClient name)).takersAll steps).length ≤ 1 ∧
    ∀ p ∈ ((ofNode (.newClient name)).followAll steps).peers,
      (p.flow.id ∉ (ofNode (.newClient name)).takersAll steps →
        (∀ outbox sending receiving,
          p.presence ≠ .running (.pumping outbox sending receiving)) ∧
        ∃ signatures names,
          signatures ≤ attempts p.name steps ∧ names ≤ attempts p.name steps ∧
          p.flow.link.stream.written <+: greeting name signatures names) ∧
      (p.flow.id ∈ (ofNode (.newClient name)).takersAll steps →
        ∃ signatures names,
          1 ≤ signatures ∧ signatures ≤ attempts p.name steps ∧
          1 ≤ names ∧ names ≤ attempts p.name steps ∧
          p.flow.link.stream.written <+:
            greeting name signatures names ++
              frameLines ((ofNode (.newClient name)).acceptedAll steps)) ∧
      ∀ step q, ((ofNode (.newClient name)).followAll steps).Shaking p step →
        (((ofNode (.newClient name)).followAll steps).follow step).peer? p.name = some q →
        q.flow.isIntroduced = true →
        ((ofNode (.newClient name)).followAll steps).takers step = [q.flow.id] ∨
          ((ofNode (.newClient name)).followAll steps).Refuses name
            (attempts p.name steps + step.attempts p.name) step q := by
  have htended := (tended_newClient name).followAll steps
  generalize (ofNode (.newClient name)).takersAll steps = takers,
    (ofNode (.newClient name)).acceptedAll steps = accepted,
    (ofNode (.newClient name)).followAll steps = s at htended ⊢
  rw [List.nil_append, List.nil_append] at htended
  have hattempts : ∀ other, 0 + attempts other steps ≤ attempts other steps :=
    fun other => Nat.le_of_eq (Nat.zero_add _)
  replace htended := htended.mono hattempts
  refine ⟨htended.sole, fun p hp => ⟨fun hnot => ?_, fun hmem => ?_, fun step q => ?_⟩⟩
  · exact (htended.tells p hp).written_of_notMem hnot
  · exact (htended.tells p hp).written_of_isIntroduced (htended.introduced p hp hmem)
  · exact htended.takers_or_refuses hp

/-- Two peers are greeted, two lines are typed, and the flow of one of them is run. -/
def rivalSteps : List Step :=
  [.perform (.openFlow "ann"), .perform (.openFlow "bob"), .perform (.typeLine "hello"),
    .perform (.typeLine ""), .perform (.farEnd "ann" (.arrive (greeting "ann" 1 1))),
    .perform (.farEnd "bob" (.arrive (greeting "bob" 1 1))),
    .perform (.run "bob")]

/-- The session in which that was done with a client. -/
def rivalSession : Session :=
  (ofNode (.newClient "parley")).followAll rivalSteps

/-- The other flow has its handshake when it is run, and is refused. -/
theorem exists_refuses_rival :
    ∃ p ∈ rivalSession.peers, ∃ q, rivalSession.Shaking p (.perform (.run "ann")) ∧
      (rivalSession.follow (.perform (.run "ann"))).peer? p.name = some q ∧
      q.flow.isIntroduced = true ∧
      rivalSession.Refuses "parley" 1 (.perform (.run "ann")) q := by
  have hne : rivalSession.peers ≠ [] := fun h => nomatch h
  have hmem := List.head_mem hne
  have hshaking : rivalSession.Shaking (rivalSession.peers.head hne) (.perform (.run "ann")) :=
    .run rfl rfl rfl
  obtain ⟨-, -, hall⟩ := (typed_of_followAll "parley" rivalSteps).2 _ hmem
  obtain htakers | hrefuses := hall _ _ hshaking rfl rfl
  · cases htakers
  · exact ⟨_, hmem, _, hshaking, rfl, rfl, hrefuses⟩

/-- Who ran first has the lines. -/
example :
    (ofNode (.newClient "parley")).takersAll rivalSteps = [2] ∧
      (ofNode (.newClient "parley")).acceptedAll rivalSteps = ["hello", ""] ∧
      (rivalSession.peer? "bob").map (fun p => p.flow.link.stream.written) =
        some (greeting "parley" 1 1 ++ frameLines ["hello"]) :=
  ⟨rfl, rfl, rfl⟩

end Session

end Parley.Chat
