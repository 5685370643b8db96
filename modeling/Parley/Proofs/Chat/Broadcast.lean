import Parley.Proofs.Chat.Accounts
import Parley.Proofs.Chat.Numbers

/-!
# Broadcast

A server session has one log of all that it passed on, over all flows and all steps. What
was written to a flow is, behind the frames of its handshake, the beginning of the frames
for those lines of the log that were passed on while it had a route; and all of them once
nothing is left to do.

- `Session.relaysAll`: the log of a session.
- `Session.attempts`: how many handshakes the flow of a peer has begun.
- `Session.Balanced`: the account of every flow. Every step keeps it (`balanced_follow`).
- `Session.exists_writes_of_mem_peers`: what was written to each flow.
-/

namespace Parley.Chat

open Wire

/-! ## Peers -/

namespace Peer

variable {name : String} {limit : Nat} {n : Node} {log : List Relay} {id : FlowId} {p : Peer}
  {flow : Flow} {requests : List Request}

/-- A flow whose run ended is idle, or dropped with its connection. -/
theorem settle_cases (p : Peer) (progress : Flow.RunProgress) (flow : Flow) :
    (p.settle progress flow).flow = flow ∧
        (p.settle progress flow).presence = progress.presence ∨
      (∃ result, progress = .finished result) ∧ (p.settle progress flow).flow = flow.drop ∧
        (p.settle progress flow).presence = .gone := by
  cases progress with
  | waiting phase => exact .inl ⟨rfl, rfl⟩
  | finished result =>
    unfold settle afterRun
    dsimp only
    split
    · exact .inl ⟨rfl, rfl⟩
    · exact .inr ⟨⟨result, rfl⟩, rfl, rfl⟩

theorem accounts_settle {progress : Flow.RunProgress}
    (h : Flow.Accounts name limit n log id flow progress.presence requests) :
    Flow.Accounts name limit n log id (p.settle progress flow).flow
      (p.settle progress flow).presence requests := by
  obtain ⟨hflow, hpresence⟩ | ⟨⟨result, rfl⟩, hflow, hpresence⟩ := p.settle_cases progress flow
  · rw [hflow, hpresence]
    exact h
  · rw [hflow, hpresence]
    exact ⟨h.id_eq, Flow.account_drop h.account (.inl rfl), h.spares⟩

theorem accounts_start (h : p.flow.Account name limit n log .idle) (hname : n.name = name)
    (hserver : n.IsServer) (hwf : n.router.WellFormed) :
    Flow.Accounts name (limit + 1) n log p.flow.id (p.start n).1.flow (p.start n).1.presence
      (p.start n).2 :=
  accounts_settle (Flow.accounts_start_of_idle h hname hserver hwf)

/-- A run that is begun, and given up when it has to wait. -/
theorem accounts_runOnce (h : p.flow.Account name limit n log p.presence)
    (hidle : p.presence = .idle) (hname : n.name = name) (hserver : n.IsServer)
    (hwf : n.router.WellFormed) :
    Flow.Accounts name (limit + 1) n log p.flow.id (p.runOnce n).2.1.flow
      (p.runOnce n).2.1.presence (p.runOnce n).2.2 := by
  rw [hidle] at h
  have hstart := Flow.accounts_start_of_idle h hname hserver hwf
  unfold runOnce
  generalize p.flow.start n = started at hstart ⊢
  obtain ⟨phase | result, flow, requests⟩ := started
  · have habandon := Flow.accounts_abandon hstart.account
    rw [hstart.id_eq] at habandon
    dsimp only
    generalize flow.abandon phase = abandoned at habandon ⊢
    obtain ⟨flow', more⟩ := abandoned
    rw [hidle]
    exact .prepend hstart.spares habandon
  · dsimp only
    rw [hidle]
    exact hstart

end Peer

/-- A clock that goes on by a nanosecond whenever it is read. -/
def Clock.morning : Clock :=
  ⟨fun count => ⟨2024, 3, 9, 7, 5, 3, count⟩⟩

namespace Session

/-! ## The log -/

/-- What is passed on in a step. -/
def relays (s : Session) (step : Step) : List Relay :=
  s.node.relaysAll (s.requests step)

/-- All that is passed on, in order. -/
def relaysAll (s : Session) : List Step → List Relay
  | [] => []
  | step :: steps => s.relays step ++ (s.follow step).relaysAll steps

/-- How many handshakes the flow of a peer begins at most in a step. -/
def Step.attempts (name : String) : Step → Nat
  | .perform (.run other) | .perform (.runOnce other) | .perform (.handshake other) =>
    if other = name then 1 else 0
  | _ => 0

/-- How many handshakes the flows of a peer begin at most in some steps. -/
def attempts (name : String) : List Step → Nat
  | [] => 0
  | step :: steps => step.attempts name + attempts name steps

theorem attempts_append (peer : String) (steps more : List Step) :
    attempts peer (steps ++ more) = attempts peer steps + attempts peer more := by
  induction steps with
  | nil => exact (Nat.zero_add _).symm
  | cons step steps ih => rw [List.cons_append, attempts, attempts, ih, Nat.add_assoc]

/-- Every flow of a server session has its account in the log, with at most so many
handshakes begun. -/
structure Balanced (name : String) (log : List Relay) (counts : String → Nat) (s : Session) :
    Prop where
  server : s.node.IsServer
  named : s.node.name = name
  wellFormed : s.node.router.WellFormed
  distinct : s.Distinct
  numbered : s.Numbered
  accounts : ∀ p ∈ s.peers, p.flow.Account name (counts p.name) s.node log p.presence
  unheard : ∀ id, id = 0 ∨ s.nextFlow ≤ id → Unheard s.node log id
  nextOutbox_neg : s.nextOutbox < 0
  outboxes : ∀ entry ∈ s.outboxes, ∃ number owner, entry.2 = .subscriber number ∧
    s.node.router.idOf number = some owner ∧ owner < 0

/-- What becomes of one flow in a step, booked as the same flow or under a new number. -/
structure Booked (name : String) (log : List Relay) (limit : Nat) (s : Session) (p' : Peer)
    (requests : List Request) (next : FlowId) : Prop where
  accounts : Flow.Accounts name limit s.node log p'.flow.id p'.flow p'.presence requests
  number : (p'.flow.id = 0 ∨ ∃ p ∈ s.peers, p.name = p'.name ∧ p.flow.id = p'.flow.id) ∧
      next = s.nextFlow ∨
    p'.flow.id = s.nextFlow ∧ next = s.nextFlow + 1
  unnumbered : p'.flow.id = 0 →
    requests = [] ∧ p'.handled = false ∧ (p'.presence = .connected ∨ p'.presence = .gone)

section Turns

variable {name : String} {log : List Relay} {counts : String → Nat} {s : Session} {p p' : Peer}
  {step : Step} {requests : List Request} {next : FlowId}

/-- The number and the account of a flow that did something. -/
theorem Booked.of_accounts {limit : Nat} {id : FlowId} (hnumbers : s.Numbers p' requests next)
    (haccounts : Flow.Accounts name limit s.node log id p'.flow p'.presence requests) :
    s.Booked name log limit p' requests next where
  accounts := haccounts.id_eq.symm ▸ haccounts
  number := hnumbers.number
  unnumbered := hnumbers.unnumbered

theorem Booked.numbers {limit : Nat} (h : s.Booked name log limit p' requests next) :
    s.Numbers p' requests next :=
  ⟨h.number, h.unnumbered⟩

theorem Balanced.accounts_poll (h : s.Balanced name log counts) (hp : p ∈ s.peers) :
    Flow.Accounts name (counts p.name) s.node log p.flow.id (p.poll s.node).1.flow
      (p.poll s.node).1.presence (p.poll s.node).2 := by
  have haccount := h.accounts p hp
  unfold Peer.poll
  split
  case h_1 phase hpresence =>
    rw [hpresence] at haccount
    exact Peer.accounts_settle (Flow.accounts_poll haccount h.named h.server h.wellFormed)
  case h_2 => exact .of_account haccount

/-- The flow of a run that is given up is idle, or dropped with its connection. -/
theorem Balanced.accounts_abandon (h : s.Balanced name log counts) (hp : p ∈ s.peers) :
    Flow.Accounts name (counts p.name) s.node log p.flow.id p.abandon.1.flow
      p.abandon.1.presence p.abandon.2 := by
  have haccount := h.accounts p hp
  unfold Peer.abandon
  split
  case h_1 phase hpresence =>
    rw [hpresence] at haccount
    have hgiven := Flow.accounts_abandon haccount
    dsimp only
    split
    case isTrue => exact hgiven
    case isFalse => exact ⟨hgiven.id_eq, Flow.account_drop hgiven.account (.inl rfl), hgiven.spares⟩
  case h_2 => exact .of_account haccount

/-- A run begins. A connection becomes a flow, or turns out to have been disposed of. -/
theorem Balanced.accounts_run (h : s.Balanced name log counts) (hp : p ∈ s.peers) :
    ∃ id, Flow.Accounts name (counts p.name + 1) s.node log id
      (p.run s.nextFlow s.cancelled s.node).1.flow
      (p.run s.nextFlow s.cancelled s.node).1.presence
      (p.run s.nextFlow s.cancelled s.node).2 := by
  have haccount := h.accounts p hp
  unfold Peer.run
  split
  case h_1 hidle =>
    rw [hidle] at haccount
    exact ⟨_, Peer.accounts_start haccount h.named h.server h.wellFormed⟩
  case h_2 hconnected =>
    rw [hconnected] at haccount
    split
    case isTrue =>
      have hidle := Flow.account_mono (Flow.account_idle_of_connected haccount) (Nat.le_succ _)
      have hfinished : Flow.Accounts name (counts p.name + 1) s.node log p.flow.id p.flow
          (Flow.RunProgress.finished (.error .disposed)).presence [] := .of_account hidle
      exact ⟨_, Peer.accounts_settle hfinished⟩
    case isFalse =>
      -- Nothing was ever passed on under a number that is new.
      have hidle := Flow.account_of_connected haccount
        (h.unheard s.nextFlow (.inr (Int.le_refl _))) s.cancelled
      exact ⟨_, Peer.accounts_start
        (p := { p with flow := { p.flow with id := s.nextFlow, cancelled := s.cancelled } })
        hidle h.named h.server h.wellFormed⟩
  case h_3 => exact ⟨_, .of_account (Flow.account_mono haccount (Nat.le_succ _))⟩

/-- Whatever the flow of a peer does, it has an account. -/
theorem Balanced.accounts_turn (h : s.Balanced name log counts) (hp : p ∈ s.peers)
    (hturn : Turn s p step p' requests next) :
    ∃ id, Flow.Accounts name (counts p.name + step.attempts p.name) s.node log id p'.flow
      p'.presence requests := by
  have haccount := h.accounts p hp
  cases hturn with
  | poll => exact ⟨_, h.accounts_poll hp⟩
  | abandon => exact ⟨_, h.accounts_abandon hp⟩
  | run =>
    rw [Step.attempts, if_pos rfl]
    exact h.accounts_run hp
  | runOnce hidle =>
    rw [Step.attempts, if_pos rfl]
    exact ⟨_, Peer.accounts_runOnce haccount hidle h.named h.server h.wellFormed⟩
  | farEnd event => exact ⟨_, .of_account ((p.flow.stays_happen event).account haccount)⟩
  | handshake hidle =>
    rw [hidle] at haccount
    rw [Step.attempts, if_pos rfl, h.named, hidle]
    exact ⟨_, .of_account (Flow.account_handshake haccount)⟩
  | closeFlow hidle =>
    rw [hidle] at haccount ⊢
    exact ⟨_, .of_account (Flow.account_of_ends haccount p.flow.ends_close)⟩
  | requestClose => exact ⟨_, .of_account (p.flow.stays_requestClose.account haccount)⟩
  | dropFlow hfree => exact ⟨_, .of_account (Flow.account_drop haccount hfree)⟩
  | disposeConnection hconnected =>
    rw [hconnected] at haccount ⊢
    exact ⟨_, .of_account (Flow.account_drop_connected haccount)⟩

/-- Whatever the flow of a peer does, its account fits. -/
theorem Balanced.booked_turn (h : s.Balanced name log counts) (hp : p ∈ s.peers)
    (hturn : Turn s p step p' requests next) :
    s.Booked name log (counts p.name + step.attempts p.name) p' requests next := by
  obtain ⟨id, haccounts⟩ := h.accounts_turn hp hturn
  exact .of_accounts (h.numbered.numbers_turn hp hturn) haccounts

end Turns

/-! ## Steps -/

section Steps

variable {name : String} {log : List Relay} {counts counts' : String → Nat} {limit : Nat}
  {s : Session} {p' q : Peer} {requests : List Request} {next : FlowId}

/-- What the flow asks for concerns no other flow. -/
theorem Booked.spares (h : s.Booked name log limit p' requests next) {id : FlowId}
    (hne : p'.flow.id ≠ 0 → id ≠ p'.flow.id) : s.node.SparesAll id requests := by
  by_cases hzero : p'.flow.id = 0
  case pos =>
    obtain ⟨rfl, -⟩ := h.unnumbered hzero
    trivial
  case neg => exact h.accounts.spares id (hne hzero)

/-- All accounts are kept when one flow does something. -/
theorem Balanced.serve (h : s.Balanced name log counts)
    (hbooked : s.Booked name log limit p' requests next) (hlimit : counts' p'.name = limit)
    (hcounts : ∀ other, other ≠ p'.name → counts' other = counts other) :
    Balanced name (log ++ s.node.relaysAll requests) counts'
      ({ s with nextFlow := next }.serve p' requests) where
  server := Node.isServer_serveAll h.server requests
  named := (Node.name_serveAll s.node requests).trans h.named
  wellFormed := Node.wellFormed_serveAll h.wellFormed requests
  distinct := distinct_setPeer h.distinct p'
  numbered := hbooked.numbers.numbered h.numbered
  accounts q hq := by
    rcases mem_setPeer.1 hq with rfl | ⟨hq, hname⟩
    · exact hlimit ▸ hbooked.accounts.account
    · rw [hcounts q.name hname]
      exact Flow.account_serveAll (h.accounts q hq) h.wellFormed
        (hbooked.spares (hbooked.numbers.id_ne h.numbered hq hname))
  unheard id hid := by
    have hrange := hbooked.numbers.id_range h.numbered
    have hle := hbooked.numbers.next_le
    have hid' : id = 0 ∨ s.nextFlow ≤ id := hid.imp_right (Int.le_trans hle)
    refine (h.unheard id hid').serveAll (hbooked.spares fun hne => ?_)
    rcases hid with rfl | (hid : next ≤ id)
    · exact hne.symm
    · lia
  nextOutbox_neg := h.nextOutbox_neg
  outboxes entry hentry := by
    obtain ⟨number, owner, hnumber, howner, hneg⟩ := h.outboxes entry hentry
    exact ⟨number, owner, hnumber, Node.idOf_serveAll howner requests, hneg⟩

/-- All accounts are kept when something is asked that concerns no flow. -/
theorem Balanced.serveAll (h : s.Balanced name log counts)
    (hspares : ∀ id, 0 ≤ id → s.node.SparesAll id requests) :
    Balanced name (log ++ s.node.relaysAll requests) counts
      { s with node := s.node.serveAll requests } where
  server := Node.isServer_serveAll h.server requests
  named := (Node.name_serveAll s.node requests).trans h.named
  wellFormed := Node.wellFormed_serveAll h.wellFormed requests
  distinct := h.distinct
  numbered := h.numbered.congr rfl rfl
  accounts q hq := Flow.account_serveAll (h.accounts q hq) h.wellFormed
    (hspares q.flow.id (h.numbered.numbers q hq).1)
  unheard id hid := by
    refine (h.unheard id hid).serveAll (hspares id ?_)
    have hpos := h.numbered.next_pos
    rcases hid with rfl | (hid : s.nextFlow ≤ id) <;> lia
  nextOutbox_neg := h.nextOutbox_neg
  outboxes entry hentry := by
    obtain ⟨number, owner, hnumber, howner, hneg⟩ := h.outboxes entry hentry
    exact ⟨number, owner, hnumber, Node.idOf_serveAll howner requests, hneg⟩

theorem Balanced.mono (h : s.Balanced name log counts)
    (hle : ∀ other, counts other ≤ counts' other) :
    s.Balanced name log counts' :=
  { h with accounts := fun q hq => Flow.account_mono (h.accounts q hq) (hle q.name) }

/-- Whatever queues are known by name, if none of them belongs to a flow. -/
theorem Balanced.of_outboxes (h : s.Balanced name log counts) {outboxes : List (String × Outbox)}
    {nextOutbox : FlowId} (hneg : nextOutbox < 0)
    (hall : ∀ entry ∈ outboxes, ∃ number owner, entry.2 = .subscriber number ∧
      s.node.router.idOf number = some owner ∧ owner < 0) :
    Balanced name log counts { s with outboxes, nextOutbox } :=
  { h with
    numbered := h.numbered.congr rfl rfl
    nextOutbox_neg := hneg
    outboxes := hall }

/-- All accounts are kept when something is asked that concerns no flow, and by which
nothing is passed on. -/
theorem Balanced.serveAll_of_relaysAll (h : s.Balanced name log counts)
    (hspares : ∀ id, 0 ≤ id → s.node.SparesAll id requests)
    (hrelays : s.node.relaysAll requests = []) :
    Balanced name log counts { s with node := s.node.serveAll requests } := by
  have hserved := h.serveAll hspares
  rwa [hrelays, List.append_nil] at hserved

theorem mem_of_lookup {entries : List (String × Outbox)} {key : String} {outbox : Outbox}
    (h : entries.lookup key = some outbox) : (key, outbox) ∈ entries := by
  obtain ⟨before, after, rfl, -⟩ := List.lookup_eq_some_iff.1 h
  exact List.mem_append_right _ (List.mem_cons_self ..)

theorem Balanced.closeOutbox (h : s.Balanced name log counts) (key : String) :
    (s.closeOutbox key).Balanced name log counts := by
  unfold Session.closeOutbox
  split
  case h_1 outbox hlookup =>
    obtain ⟨number, owner, rfl, howner, hneg⟩ := h.outboxes _ (mem_of_lookup hlookup)
    have hspares : ∀ id, 0 ≤ id → s.node.SparesAll id [.closeOutbox (.subscriber number)] :=
      fun id hid => ⟨⟨owner, howner, by lia⟩, trivial⟩
    have hclosed := h.serveAll_of_relaysAll hspares (by simp)
    exact hclosed.of_outboxes hclosed.nextOutbox_neg fun entry hentry =>
      hclosed.outboxes entry (List.mem_of_mem_filter hentry)
  case h_2 => exact h

theorem idOf_closeOutbox {number : Nat} {id : FlowId} (h : s.node.router.idOf number = some id)
    (key : String) : (s.closeOutbox key).node.router.idOf number = some id := by
  unfold Session.closeOutbox
  split
  · exact Node.idOf_serve h (.closeOutbox _)
  · exact h

theorem Balanced.openOutbox (h : s.Balanced name log counts) (key : String) :
    (s.openOutbox key).2.Balanced name log counts := by
  obtain ⟨number, n', hopen, hserves⟩ := Node.exists_openOutbox h.server s.nextOutbox
  have hneg := h.nextOutbox_neg
  have hn' : s.node.serveAll [.openOutbox s.nextOutbox] = n' := congrArg Prod.snd hopen
  have hspares : ∀ id, 0 ≤ id → s.node.SparesAll id [.openOutbox s.nextOutbox] :=
    fun id hid => ⟨show id ≠ s.nextOutbox by lia, trivial⟩
  have hserved := h.serveAll_of_relaysAll hspares (by simp)
  rw [hn'] at hserved
  have hopened : Balanced name log counts
      { s with node := n', nextOutbox := s.nextOutbox - 1 } :=
    hserved.of_outboxes (by lia) hserved.outboxes
  -- A queue that was known by this name is given up.
  have hclosed := hopened.closeOutbox key
  unfold Session.openOutbox
  rw [hopen]
  refine hclosed.of_outboxes hclosed.nextOutbox_neg (List.forall_mem_cons.2 ⟨?_, hclosed.outboxes⟩)
  exact ⟨number, s.nextOutbox, rfl, idOf_closeOutbox hserves.idOf_eq key, hneg⟩

theorem Balanced.nextLine (h : s.Balanced name log counts) (key : String) :
    (s.nextLine key).2.Balanced name log counts := by
  unfold Session.nextLine
  split
  case h_1 outbox hlookup =>
    obtain ⟨number, owner, rfl, howner, hneg⟩ := h.outboxes _ (mem_of_lookup hlookup)
    unfold Node.nextLine
    cases s.node.pending (.subscriber number) with
    | nil => cases s.node.isEnded (.subscriber number) <;> exact h
    | cons line lines =>
      have hspares : ∀ id, 0 ≤ id →
          s.node.SparesAll id [.setPending (.subscriber number) lines] :=
        fun id hid => ⟨⟨owner, howner, by lia⟩, trivial⟩
      exact h.serveAll_of_relaysAll hspares (by simp)
  case h_2 => exact h

theorem Balanced.cancel (h : s.Balanced name log counts) :
    Balanced name log counts
      { s with
        cancelled := true
        peers := s.peers.map fun p => { p with flow := p.flow.cancel } } where
  server := h.server
  named := h.named
  wellFormed := h.wellFormed
  distinct := by
    show ((s.peers.map _).map Peer.name).Nodup
    rw [List.map_map]
    exact h.distinct
  numbered := h.numbered.cancel
  accounts q hq := by
    obtain ⟨p, hp, rfl⟩ := List.mem_map.1 hq
    exact p.flow.stays_cancel.account (h.accounts p hp)
  unheard := h.unheard
  nextOutbox_neg := h.nextOutbox_neg
  outboxes := h.outboxes

/-- A flow that is opened has a new number. -/
theorem Balanced.booked_openFlow (h : s.Balanced name log counts) (peer : String) :
    s.Booked name log (counts peer)
      { name := peer, flow := .create s.nextFlow .idle s.cancelled, handled := true,
        presence := .idle, result := none } [] (s.nextFlow + 1) :=
  .of_accounts (h.numbered.numbers_openFlow peer) (.of_account
    (Flow.account_create (h.unheard s.nextFlow (.inr (Int.le_refl _))) (.inr rfl) ..))

theorem Balanced.openFlow (h : s.Balanced name log counts) (peer : String) :
    (s.openFlow peer).2.Balanced name log counts := by
  have hserved : Balanced name (log ++ s.node.relaysAll []) counts (s.openFlow peer).2 :=
    h.serve (h.booked_openFlow peer) rfl fun _ _ => rfl
  rwa [Node.relaysAll_nil, List.append_nil] at hserved

/-- A connection has no number. -/
theorem Balanced.booked_openConnection (h : s.Balanced name log counts) (peer : String) :
    s.Booked name log (counts peer)
      { name := peer, flow := .create 0 .idle s.cancelled, handled := false,
        presence := .connected, result := none } [] s.nextFlow :=
  .of_accounts (Numbered.numbers_openConnection peer) (.of_account
    (Flow.account_create (h.unheard 0 (.inl rfl)) (.inl rfl) ..))

theorem Balanced.openConnection (h : s.Balanced name log counts) (peer : String) :
    (s.openConnection peer).2.Balanced name log counts := by
  have hserved : Balanced name (log ++ s.node.relaysAll []) counts (s.openConnection peer).2 :=
    h.serve (h.booked_openConnection peer) rfl fun _ _ => rfl
  rwa [Node.relaysAll_nil, List.append_nil] at hserved

/-- Only the handshakes of the own flow are counted. -/
theorem Turn.attempts_of_ne {p : Peer} {step : Step} (h : Turn s p step p' requests next)
    {other : String} (hne : other ≠ p.name) : step.attempts other = 0 := by
  cases h <;> first | rfl | exact if_neg hne.symm

/-- Every step keeps all accounts. -/
theorem balanced_follow (h : s.Balanced name log counts) (step : Step) :
    (s.follow step).Balanced name (log ++ s.relays step)
      (fun other => counts other + step.attempts other) := by
  have heffect := s.effect_follow step
  unfold relays
  generalize s.requests step = requests, s.follow step = s' at heffect ⊢
  -- Most steps pass nothing on and begin no handshake.
  have hmono : ∀ {s' : Session}, s'.Balanced name log counts →
      s'.Balanced name (log ++ s.node.relaysAll [])
        (fun other => counts other + step.attempts other) := by
    intro s' hs'
    rw [Node.relaysAll_nil, List.append_nil]
    exact hs'.mono fun other => Nat.le_add_right _ _
  cases heffect with
  | still => exact hmono h
  | @turn p p' _ _ next hp hturn =>
    refine h.serve (h.booked_turn hp hturn) (by rw [hturn.name_eq]) fun other hne => ?_
    rw [hturn.attempts_of_ne (hturn.name_eq ▸ hne), Nat.add_zero]
  | openFlow peer => exact hmono (h.openFlow peer)
  | openConnection peer => exact hmono (h.openConnection peer)
  | typeLine line =>
    rw [Node.typeLine_of_isServer h.server]
    exact hmono h
  | endTyping =>
    rw [Node.endTyping_of_isServer h.server]
    exact hmono h
  | closeConsole =>
    rw [Node.closeConsole_of_isServer h.server]
    exact hmono h
  | cancel => exact hmono h.cancel
  | broadcast line => exact h.serveAll fun _ _ => ⟨trivial, trivial⟩
  | consume sender line => exact h.serveAll fun _ _ => ⟨trivial, trivial⟩
  | openOutbox key => exact hmono (h.openOutbox key)
  | nextLine key => exact hmono (h.nextLine key)
  | closeOutbox key => exact hmono (h.closeOutbox key)

theorem balanced_followAll (h : s.Balanced name log counts) (steps : List Step) :
    (s.followAll steps).Balanced name (log ++ s.relaysAll steps)
      (fun other => counts other + attempts other steps) := by
  induction steps generalizing s log counts with
  | nil =>
    rw [relaysAll, List.append_nil]
    exact h
  | cons step steps ih =>
    have hrest := ih (balanced_follow h step)
    rw [List.append_assoc] at hrest
    refine hrest.mono fun other => ?_
    exact Nat.le_of_eq (Nat.add_assoc ..)

end Steps

/-! ## What is written -/

theorem balanced_newServer (name : String) (transform : Transform) (nextObject : Formula.ObjectId)
    (clock : Clock) :
    (ofNode (.newServer name transform nextObject clock)).Balanced name [] (fun _ => 0) where
  server := trivial
  named := rfl
  wellFormed := Router.wellFormed_empty
  distinct := distinct_ofNode _
  numbered := numbered_ofNode _
  accounts := List.forall_mem_nil _
  unheard _ _ := ⟨List.not_mem_nil, List.forall_mem_nil _⟩
  nextOutbox_neg := Int.negSucc_lt_zero 0
  outboxes := List.forall_mem_nil _

section Writing

variable {name : String} {log : List Relay} {counts : String → Nat} {s : Session} {p : Peer}
  {phase : Phase}

/-- The run of an active flow takes lines from its queue. -/
theorem exists_queues {name : String} {limit : Nat} {n : Node} {log : List Relay} {f : Flow}
    (h : f.Account name limit n log (.running phase)) (hactive : f.state = .active) :
    ∃ number sending receiving signatures names before during taken waiting,
      phase = .pumping (.subscriber number) sending receiving ∧ sending.Ready f.link ∧
        f.Queues name limit n log number signatures names before during taken waiting := by
  cases h with
  | fresh hpresence => rcases hpresence with h | h | h <;> cases h
  | shaking hstate => cases hstate.symm.trans hactive
  | queued hqueues hready => exact ⟨_, _, _, _, _, _, _, _, _, rfl, hready, hqueues⟩
  | silent hpresence =>
    obtain h | h | ⟨-, hclosed, -⟩ := hpresence
    · cases h
    · cases h
    · cases hclosed.symm.trans hactive

/-- A run that stays where it is. -/
theorem poll_of_still {p : Peer} {n : Node} (hrunning : p.presence = .running phase)
    (hstill : (p.poll n).1 = p) :
    (p.flow.poll phase n).1 = .waiting phase ∧ (p.flow.poll phase n).2.1 = p.flow := by
  have hpoll : (p.poll n).1 = p.settle (p.flow.poll phase n).1 (p.flow.poll phase n).2.1 := by
    unfold Peer.poll
    rw [hrunning]
  rw [hpoll] at hstill
  have hpresence := (congrArg Peer.presence hstill).trans hrunning
  generalize (p.flow.poll phase n).1 = progress, (p.flow.poll phase n).2.1 = flow
    at hstill hpresence ⊢
  cases progress with
  | waiting phase' =>
    have hphase : phase' = phase := Presence.running.inj hpresence
    exact ⟨congrArg _ hphase, congrArg Peer.flow hstill⟩
  | finished result =>
    rcases Peer.presence_afterRun { p with flow } result with hended | hended <;>
      cases hpresence.symm.trans hended

/-- The part of the log of an active flow reaches to its end, and at rest all of that part
has been written. -/
theorem Balanced.exists_writes_all (h : s.Balanced name log counts) (hp : p ∈ s.peers)
    (hrests : s.Rests p.name) (hactive : p.flow.state = .active)
    (hrunning : p.presence = .running phase)
    (haccepts : p.flow.link.stream.acceptance = .everything) :
    p.flow.id ∈ s.node.router.ids ∧ ∃ signatures names before during,
      p.flow.Writes name log (counts p.name) signatures names before during [] ∧
        p.flow.link.stream.written =
          greeting name signatures names ++ frameLines (during.map Relay.line) := by
  have haccount := h.accounts p hp
  rw [hrunning] at haccount
  obtain ⟨number, sending, receiving, signatures, names, before, during, taken, waiting, rfl,
    hready, hqueues⟩ := exists_queues haccount hactive
  obtain ⟨hprogress, hflow⟩ := poll_of_still hrunning (hrests.poll_eq h.distinct hp).1
  have hpump : p.flow.pump (.subscriber number) sending receiving s.node =
      (.waiting (.pumping (.subscriber number) sending receiving), p.flow,
        (p.flow.pump (.subscriber number) sending receiving s.node).2.2) :=
    Prod.ext hprogress (Prod.ext hflow rfl)
  obtain ⟨hempty, hout⟩ := Flow.pump_of_everything hready
    (Node.isEnded_of_serves hqueues.serves) haccepts hpump
  rw [Node.pending_of_serves hqueues.serves] at hout
  -- The lines that still wait are empty ones, which are not sent.
  have hwaiting : frameLines waiting = [] := List.append_right_eq_self.1 hout.symm
  have hlines : frameLines (during.map Relay.line) = frameLines taken := by
    rw [hqueues.lines_eq, frameLines_append, hwaiting, List.append_nil]
  have hwritten : p.flow.link.stream.written =
      greeting name signatures names ++ frameLines (during.map Relay.line) := by
    rw [hlines, ← hqueues.out, Link.out, hempty, List.append_nil]
  exact ⟨hqueues.serves.mem_ids, signatures, names, before, during,
    { segment := hqueues.segment
      signatures_le := hqueues.signatures_le
      names_le := hqueues.names_le
      named := fun _ => ⟨hqueues.signatures_pos, hqueues.names_pos⟩
      written_prefix := hwritten ▸ List.prefix_rfl }, hwritten⟩

end Writing

/-- **Totally ordered broadcast.** Whatever is done with a server, in whatever order runs
go on and wherever one is given up, all lines passed on are in one log. What was written to a
flow is, behind the frames of its handshakes, the beginning of the frames for those lines of
the log that were passed on while the flow had a route; they stand together in the log. The
flow rests as an active one on a stream that accepts everything only when all of them have
been written. -/
theorem exists_writes_of_mem_peers (name : String) (transform : Transform)
    (nextObject : Formula.ObjectId) (clock : Clock) (steps : List Step) {p : Peer}
    (hp : p ∈ ((ofNode (.newServer name transform nextObject clock)).followAll steps).peers) :
    ∃ signatures names before during after,
      p.flow.Writes name ((ofNode (.newServer name transform nextObject clock)).relaysAll steps)
        (attempts p.name steps) signatures names before during after ∧
      ∀ phase,
        ((ofNode (.newServer name transform nextObject clock)).followAll steps).Rests p.name →
        p.flow.state = .active → p.presence = .running phase →
        p.flow.link.stream.acceptance = .everything →
        after = [] ∧
          p.flow.id ∈
            ((ofNode (.newServer name transform nextObject clock)).followAll
              steps).node.router.ids ∧
          p.flow.link.stream.written =
            greeting name signatures names ++ frameLines (during.map Relay.line) := by
  have hbalanced := balanced_followAll (balanced_newServer name transform nextObject clock) steps
  generalize (ofNode (.newServer name transform nextObject clock)).relaysAll steps = log,
    (ofNode (.newServer name transform nextObject clock)).followAll steps = s at hbalanced hp ⊢
  rw [List.nil_append] at hbalanced
  have hattempts : ∀ other, 0 + attempts other steps ≤ attempts other steps :=
    fun other => Nat.le_of_eq (Nat.zero_add _)
  replace hbalanced := hbalanced.mono hattempts
  by_cases hrest : s.Rests p.name ∧ p.flow.state = .active ∧
      (∃ phase, p.presence = .running phase) ∧ p.flow.link.stream.acceptance = .everything
  case pos =>
    obtain ⟨hrests, hactive, ⟨phase, hrunning⟩, haccepts⟩ := hrest
    obtain ⟨hrouted, signatures, names, before, during, hwrites, hwritten⟩ :=
      hbalanced.exists_writes_all hp hrests hactive hrunning haccepts
    exact ⟨signatures, names, before, during, [], hwrites, fun _ _ _ _ _ =>
      ⟨rfl, hrouted, hwritten⟩⟩
  case neg =>
    obtain ⟨signatures, names, before, during, after, hwrites⟩ :=
      Flow.exists_writes (hbalanced.accounts p hp)
    exact ⟨signatures, names, before, during, after, hwrites,
      fun phase hrests hactive hrunning haccepts =>
        absurd ⟨hrests, hactive, ⟨phase, hrunning⟩, haccepts⟩ hrest⟩

/-- One peer is greeted, and a line is passed on to it. -/
def helloSteps : List Step :=
  [.perform (.openFlow "ann"),
    .perform (.farEnd "ann" (.arrive (frameOf signature ++ frameOf (Text.Utf8.encode "ann")))),
    .perform (.run "ann"), .perform (.broadcast "hello"), .poll "ann"]

/-- The session in which that was done with a server. -/
def helloSession : Session :=
  (ofNode (.newServer "parley" .stamp 0 .morning)).followAll helloSteps

/-- Signature, name and line have been written, each once. -/
theorem exists_writes_hello :
    ∃ p ∈ helloSession.peers, helloSession.Rests p.name ∧ ∃ before during,
      Segment p.flow.id
        ((ofNode (.newServer "parley" .stamp 0 .morning)).relaysAll helloSteps)
        before during [] ∧
      p.flow.link.stream.written = greeting "parley" 1 1 ++ frameLines (during.map Relay.line) := by
  have hne : helloSession.peers ≠ [] := fun h => nomatch h
  have hrests : helloSession.Rests (helloSession.peers.head hne).name := rfl
  obtain ⟨signatures, names, before, during, after, hwrites, hall⟩ :=
    exists_writes_of_mem_peers "parley" .stamp 0 .morning helloSteps
      (List.head_mem hne)
  obtain ⟨rfl, -, hwritten⟩ := hall (.pumping (.subscriber 0) .idle .probing) hrests rfl rfl rfl
  obtain ⟨hsignatures, hnames⟩ := hwrites.named rfl
  obtain rfl : signatures = 1 := Nat.le_antisymm hwrites.signatures_le hsignatures
  obtain rfl : names = 1 := Nat.le_antisymm hwrites.names_le hnames
  exact ⟨_, List.head_mem hne, hrests, before, during, hwrites.segment, hwritten⟩

end Session

end Parley.Chat
