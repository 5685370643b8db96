import Parley.Proofs.Chat.Steps

/-!
# Numbers of flows

A flow gets its number when it is opened, or when its connection becomes a flow, and keeps it in
whatever it does. No two flows of a session have the same.

- `Flow.Persists`: what a flow keeps in whatever it does.
- `Session.Numbered`: flows have numbers of their own.
- `Session.Numbers`: the number of a flow that did something. Every turn is of that kind
  (`Session.Numbered.numbers_turn`).
- `Session.Numbers.numbered`: numbers stay apart.
-/

namespace Parley.Chat

open Wire

/-! ## What a flow keeps -/

namespace Flow

/-- What a flow keeps in whatever it does: its number, and that it has had its handshake. -/
structure Persists (f f' : Flow) : Prop where
  id : f'.id = f.id
  introduced : f.isIntroduced = true → f'.isIntroduced = true

variable {f f' f'' : Flow}

theorem Persists.of_eq (hid : f'.id = f.id) (hvalidated : f'.validated = f.validated)
    (hname : f'.remoteName = f.remoteName) : f.Persists f' where
  id := hid
  introduced h := by
    rw [isIntroduced, hvalidated, hname]
    exact h

theorem Persists.refl (f : Flow) : f.Persists f := .of_eq rfl rfl rfl

theorem Persists.trans (h : f.Persists f') (h' : f'.Persists f'') : f.Persists f'' :=
  ⟨h'.id.trans h.id, h'.introduced ∘ h.introduced⟩

theorem validated_of_isIntroduced (h : f.isIntroduced = true) : f.validated = true :=
  (Bool.and_eq_true_iff.1 h).1

theorem persists_names (ownName : String) (stage : Link.Stage) (f : Flow) :
    f.Persists (f.names ownName stage).2 := by
  unfold names
  split
  · exact .of_eq rfl rfl rfl
  · exact .of_eq rfl rfl rfl
  · refine ⟨rfl, fun h => ?_⟩
    show (f.validated && true) = true
    rw [validated_of_isIntroduced h]
    rfl

theorem persists_shake (ownName : String) (stage : HandshakeStage) (f : Flow) :
    f.Persists (f.shake ownName stage).2 := by
  unfold shake
  split
  · exact persists_names ..
  · split
    · exact .of_eq rfl rfl rfl
    · exact .of_eq rfl rfl rfl
    case h_3 link _ =>
      have hvalidated : f.Persists { f with link, validated := true } :=
        ⟨rfl, fun h => (Bool.and_eq_true_iff.1 h).2⟩
      exact hvalidated.trans (persists_names ..)

theorem persists_beginHandshake (ownName : String) (f : Flow) :
    f.Persists (f.beginHandshake ownName).2 := by
  unfold beginHandshake
  split
  · exact .refl f
  · split
    · exact .refl f
    · exact persists_shake ..

theorem persists_handshake (ownName : String) (f : Flow) :
    f.Persists (f.handshake ownName).2 := by
  have hpersists := persists_beginHandshake ownName f
  unfold handshake
  generalize f.beginHandshake ownName = result at hpersists ⊢
  obtain ⟨_ | _, f'⟩ := result <;> exact hpersists

theorem persists_finishClosing (f : Flow) : f.Persists f.finishClosing.2 := by
  unfold finishClosing
  split
  · split <;> exact .of_eq rfl rfl rfl
  · exact .refl f

theorem persists_beginClosing (f : Flow) : f.Persists f.beginClosing.2 := by
  obtain ⟨hid, hintroduced⟩ := persists_finishClosing
    { f.cancel with
      state := .closed
      holding := if f.holding = .both then .writer else f.holding }
  exact ⟨hid, hintroduced⟩

theorem persists_close (f : Flow) : f.Persists f.close.2 := by
  obtain ⟨hid, hintroduced⟩ := f.persists_beginClosing
  exact ⟨hid, hintroduced⟩

theorem persists_drop (f : Flow) : f.Persists f.drop := .of_eq rfl rfl rfl

theorem persists_conclude (result : FlowResult) (f : Flow) : f.Persists (f.conclude result).2 := by
  have hpersists := f.persists_beginClosing
  unfold conclude
  generalize f.beginClosing = closing at hpersists ⊢
  obtain ⟨_ | _, f'⟩ := closing <;> exact hpersists

/-! ### Runs -/

section Runs

variable (n : Node)

theorem persists_converse (outbox : Outbox) (sending : SendStage) (receiving : ReceiveStage)
    (f : Flow) : f.Persists (f.converse outbox sending receiving n).2.1 := by
  unfold converse
  split
  · exact .refl f
  · generalize pumpOut (n.isEnded outbox) sending (n.pending outbox) f.link = sent
    obtain ⟨sending' | result, left, link⟩ := sent
    · dsimp only
      generalize pumpIn receiving link = received
      obtain ⟨_ | _, heard, link'⟩ := received <;> exact .of_eq rfl rfl rfl
    · exact .of_eq rfl rfl rfl

theorem persists_pump (outbox : Outbox) (sending : SendStage) (receiving : ReceiveStage)
    (f : Flow) : f.Persists (f.pump outbox sending receiving n).2.1 := by
  have hpersists := persists_converse n outbox sending receiving f
  unfold pump
  generalize f.converse outbox sending receiving n = conversed at hpersists ⊢
  obtain ⟨phase | result, f', requests⟩ := conversed
  · exact hpersists
  · exact hpersists.trans (persists_conclude result f')

theorem persists_activate (f : Flow) : f.Persists (f.activate n).2.1 := by
  have hactive : f.Persists { f with state := .active } := .of_eq rfl rfl rfl
  unfold activate
  dsimp only
  split
  · exact hactive.trans (persists_pump ..)
  · exact hactive.trans (persists_conclude ..)

theorem persists_afterHandshake (progress : HandshakeProgress) (f : Flow) :
    f.Persists (f.afterHandshake progress n).2.1 := by
  unfold afterHandshake
  split
  · exact .refl f
  · exact persists_activate n f
  · exact persists_conclude ..

theorem persists_start (f : Flow) : f.Persists (f.start n).2.1 := by
  have hbegun : f.Persists { f with state := .handshaking } := .of_eq rfl rfl rfl
  unfold start
  split
  · dsimp only
    split
    · exact hbegun.trans (persists_conclude ..)
    · exact hbegun.trans ((persists_beginHandshake ..).trans (persists_afterHandshake ..))
  · exact .refl f
  · exact .refl f

theorem persists_poll (phase : Phase) (f : Flow) : f.Persists (f.poll phase n).2.1 := by
  cases phase with
  | handshaking stage =>
    unfold poll pollHandshake
    dsimp only
    split
    · exact persists_conclude ..
    · exact (persists_shake ..).trans (persists_afterHandshake ..)
  | pumping outbox sending receiving => exact persists_pump ..
  | closing result =>
    have hpersists := f.persists_finishClosing
    unfold poll
    generalize f.finishClosing = closing at hpersists ⊢
    obtain ⟨_ | _, f'⟩ := closing <;> exact hpersists

end Runs

theorem persists_abandon (phase : Phase) (f : Flow) : f.Persists (f.abandon phase).1 := by
  cases phase <;> exact .of_eq rfl rfl rfl

end Flow

namespace Peer

variable {p : Peer} {flow : Flow}

theorem presence_afterRun (p : Peer) (result : FlowResult) :
    (p.afterRun result).presence = .idle ∨ (p.afterRun result).presence = .gone := by
  unfold afterRun
  split
  · exact .inl rfl
  · exact .inr rfl

theorem result_afterRun (p : Peer) (result : FlowResult) :
    (p.afterRun result).result = some result := by
  unfold afterRun
  split <;> rfl

theorem persists_afterRun (p : Peer) (result : FlowResult) :
    p.flow.Persists (p.afterRun result).flow := by
  unfold afterRun
  split
  · exact .refl _
  · exact p.flow.persists_drop

theorem id_settle (p : Peer) (progress : Flow.RunProgress) (flow : Flow) :
    (p.settle progress flow).flow.id = flow.id := by
  cases progress with
  | waiting phase => rfl
  | finished result => exact (persists_afterRun { p with flow } result).id

theorem persists_settle (h : p.flow.Persists flow) (progress : Flow.RunProgress) :
    p.flow.Persists (p.settle progress flow).flow := by
  cases progress with
  | waiting phase => exact h
  | finished result => exact h.trans (persists_afterRun { p with flow } result)

theorem persists_start (p : Peer) (n : Node) : p.flow.Persists (p.start n).1.flow :=
  persists_settle (p.flow.persists_start n) _

theorem persists_poll (p : Peer) (n : Node) : p.flow.Persists (p.poll n).1.flow := by
  unfold poll
  split
  · exact persists_settle (p.flow.persists_poll n _) _
  · exact .refl _

theorem persists_runOnce (p : Peer) (n : Node) : p.flow.Persists (p.runOnce n).2.1.flow := by
  have hpersists := p.flow.persists_start n
  unfold runOnce
  generalize p.flow.start n = started at hpersists ⊢
  obtain ⟨phase | result, flow, requests⟩ := started
  · exact hpersists.trans (flow.persists_abandon phase)
  · exact hpersists

theorem persists_abandon (p : Peer) : p.flow.Persists p.abandon.1.flow := by
  unfold abandon
  split
  case h_1 phase _ =>
    have hpersists := p.flow.persists_abandon phase
    dsimp only
    split
    · exact hpersists
    · exact hpersists.trans (Flow.persists_drop _)
  case h_2 => exact .refl _

/-! ### What running a peer comes to -/

theorem run_of_idle (h : p.presence = .idle) (id : FlowId) (cancelled : Bool) (n : Node) :
    p.run id cancelled n = p.start n := by
  unfold run
  rw [h]

theorem run_of_busy (hidle : p.presence ≠ .idle) (hconnected : p.presence ≠ .connected)
    (id : FlowId) (cancelled : Bool) (n : Node) : p.run id cancelled n = (p, []) := by
  unfold run
  split
  case h_1 h => exact absurd h hidle
  case h_2 h => exact absurd h hconnected
  case h_3 => rfl

theorem run_of_disposed (h : p.presence = .connected) (hdisposed : p.flow.isDisposed = true)
    (id : FlowId) (cancelled : Bool) (n : Node) :
    p.run id cancelled n = (p.afterRun (.error .disposed), []) := by
  unfold run
  rw [h]
  exact if_pos hdisposed

theorem run_of_connected (h : p.presence = .connected) (hopen : p.flow.isDisposed = false)
    (id : FlowId) (cancelled : Bool) (n : Node) :
    p.run id cancelled n = start { p with flow := { p.flow with id, cancelled } } n := by
  unfold run
  split
  case h_1 hidle => cases h.symm.trans hidle
  case h_2 => exact if_neg (by rw [hopen]; decide)
  case h_3 _ hother => exact absurd h hother

end Peer

/-! ## Numbers in a session -/

namespace Session

/-- Flows have numbers of their own; those of connections that were not run have none. -/
structure Numbered (s : Session) : Prop where
  next_pos : 0 < s.nextFlow
  numbers : ∀ p ∈ s.peers, 0 ≤ p.flow.id ∧ p.flow.id < s.nextFlow
  injective : ∀ p ∈ s.peers, ∀ q ∈ s.peers, p.flow.id = q.flow.id → p.flow.id = 0 ∨ p.name = q.name
  unnumbered : ∀ p ∈ s.peers, p.flow.id = 0 →
    p.handled = false ∧ (p.presence = .connected ∨ p.presence = .gone)

/-- A flow that did something has its number from before, none, or a new one. -/
structure Numbers (s : Session) (p' : Peer) (requests : List Request) (next : FlowId) :
    Prop where
  number : (p'.flow.id = 0 ∨ ∃ p ∈ s.peers, p.name = p'.name ∧ p.flow.id = p'.flow.id) ∧
      next = s.nextFlow ∨
    p'.flow.id = s.nextFlow ∧ next = s.nextFlow + 1
  unnumbered : p'.flow.id = 0 →
    requests = [] ∧ p'.handled = false ∧ (p'.presence = .connected ∨ p'.presence = .gone)

variable {s : Session} {p p' q : Peer} {step : Step} {requests : List Request} {next : FlowId}

/-- Whatever is done with a flow, it stays the same flow, or gets a new number. -/
theorem Turn.persists (h : Turn s p step p' requests next) :
    p.flow.Persists p'.flow ∨ p'.flow.id = s.nextFlow := by
  cases h with
  | poll => exact .inl (p.persists_poll s.node)
  | abandon => exact .inl p.persists_abandon
  | run =>
    unfold Peer.run
    split
    · exact .inl (p.persists_start s.node)
    · split
      · exact .inl (p.persists_afterRun _)
      · exact .inr (Peer.persists_start
          { p with flow := { p.flow with id := s.nextFlow, cancelled := s.cancelled } } s.node).id
    · exact .inl (.refl _)
  | runOnce => exact .inl (p.persists_runOnce s.node)
  | handshake => exact .inl (p.flow.persists_handshake s.node.name)
  | closeFlow => exact .inl p.flow.persists_close
  | farEnd | requestClose | dropFlow | disposeConnection => exact .inl (.of_eq rfl rfl rfl)

/-! ### What becomes of numbers -/

namespace Numbers

theorem next_le (h : s.Numbers p' requests next) : s.nextFlow ≤ next := by
  rcases h.number with ⟨-, hnext⟩ | ⟨-, hnext⟩ <;> lia

theorem id_range (h : s.Numbers p' requests next) (hs : s.Numbered) :
    0 ≤ p'.flow.id ∧ p'.flow.id < next := by
  have hpos := hs.next_pos
  obtain ⟨hzero | ⟨p, hp, -, hid⟩, hnext⟩ | ⟨hid, hnext⟩ := h.number
  · lia
  · have hrange := hs.numbers p hp
    lia
  · lia

/-- The other flows have other numbers. -/
theorem id_ne (h : s.Numbers p' requests next) (hs : s.Numbered) (hq : q ∈ s.peers)
    (hname : q.name ≠ p'.name) (hid : p'.flow.id ≠ 0) : q.flow.id ≠ p'.flow.id := by
  intro heq
  obtain ⟨hzero | ⟨p, hp, hpname, hpid⟩, -⟩ | ⟨hnew, -⟩ := h.number
  · exact hid hzero
  · rcases hs.injective q hq p hp (heq.trans hpid.symm) with hzero | hsame
    · exact hid (heq ▸ hzero)
    · exact hname (hsame.trans hpname)
  · have hrange := hs.numbers q hq
    lia

/-- Numbers stay apart. -/
theorem numbered (h : s.Numbers p' requests next) (hs : s.Numbered) :
    ({ s with nextFlow := next }.serve p' requests).Numbered := by
  have hrange := h.id_range hs
  have hle := h.next_le
  have hpos := hs.next_pos
  have hmem : ∀ q, q ∈ ({ s with nextFlow := next }.serve p' requests).peers ↔
      q = p' ∨ q ∈ s.peers ∧ q.name ≠ p'.name := fun q => mem_setPeer
  refine ⟨?_, fun q hq => ?_, fun q hq r hr heq => ?_, fun q hq hzero => ?_⟩
  · show 0 < next
    lia
  · rcases (hmem q).1 hq with rfl | ⟨hq, -⟩
    · exact hrange
    · obtain ⟨hnonneg, hlt⟩ := hs.numbers q hq
      exact ⟨hnonneg, Int.lt_of_lt_of_le hlt hle⟩
  · by_cases hzero : q.flow.id = 0
    case pos => exact .inl hzero
    case neg =>
      -- Only the flow that did something may have another number than before.
      rcases (hmem q).1 hq, (hmem r).1 hr with ⟨rfl | ⟨hq', hqname⟩, rfl | ⟨hr', hrname⟩⟩
      · exact .inr rfl
      · exact absurd heq.symm (h.id_ne hs hr' hrname hzero)
      · exact absurd heq (h.id_ne hs hq' hqname (heq ▸ hzero))
      · exact hs.injective q hq' r hr' heq
  · rcases (hmem q).1 hq with rfl | ⟨hq, -⟩
    · exact (h.unnumbered hzero).2
    · exact hs.unnumbered q hq hzero

end Numbers

namespace Numbered

/-- Numbers depend only on the peers and on the next number. -/
theorem congr (hs : s.Numbered) {s' : Session} (hpeers : s'.peers = s.peers)
    (hnext : s'.nextFlow = s.nextFlow) : s'.Numbered := by
  obtain ⟨hpos, hnumbers, hinjective, hunnumbered⟩ := hs
  refine ⟨?_, ?_, ?_, ?_⟩
  all_goals simpa only [hpeers, hnext]

/-- Only flows with a number are run. -/
theorem id_ne_zero (hs : s.Numbered) (hp : p ∈ s.peers)
    (hpresence : p.presence = .idle ∨ ∃ phase, p.presence = .running phase) : p.flow.id ≠ 0 := by
  intro hzero
  obtain ⟨-, hunused⟩ := hs.unnumbered p hp hzero
  rcases hpresence with hpresence | ⟨phase, hpresence⟩ <;>
    rcases hunused with hunused | hunused <;>
      cases hpresence.symm.trans hunused

/-- The flow of a peer does something, as the same flow. -/
theorem numbers_same (hp : p ∈ s.peers) (hname : p'.name = p.name) (hid : p'.flow.id = p.flow.id)
    (hunnumbered : p.flow.id = 0 →
      requests = [] ∧ p'.handled = false ∧ (p'.presence = .connected ∨ p'.presence = .gone)) :
    s.Numbers p' requests s.nextFlow where
  number := .inl ⟨.inr ⟨p, hp, hname.symm, hid.symm⟩, rfl⟩
  unnumbered hzero := hunnumbered (hid ▸ hzero)

/-- A peer whose flow may change, but not its number. -/
theorem numbers_flow (hs : s.Numbered) (hp : p ∈ s.peers) {flow : Flow}
    (hid : flow.id = p.flow.id) : s.Numbers { p with flow } [] s.nextFlow :=
  numbers_same hp rfl hid fun hzero => ⟨rfl, hs.unnumbered p hp hzero⟩

/-- A flow with a number keeps it. -/
theorem numbers_numbered (hs : s.Numbered) (hp : p ∈ s.peers)
    (hpresence : p.presence = .idle ∨ ∃ phase, p.presence = .running phase)
    (hname : p'.name = p.name) (hpersists : p.flow.Persists p'.flow) (requests : List Request) :
    s.Numbers p' requests s.nextFlow :=
  numbers_same hp hname hpersists.id fun hzero => absurd hzero (hs.id_ne_zero hp hpresence)

theorem numbers_poll (hs : s.Numbered) (hp : p ∈ s.peers) :
    s.Numbers (p.poll s.node).1 (p.poll s.node).2 s.nextFlow := by
  cases hpresence : p.presence with
  | running phase =>
    exact hs.numbers_numbered hp (.inr ⟨phase, hpresence⟩) (name_poll p s.node)
      (p.persists_poll s.node) _
  | connected | idle | gone =>
    unfold Peer.poll
    rw [hpresence]
    exact hs.numbers_flow hp rfl

theorem numbers_abandon (hs : s.Numbered) (hp : p ∈ s.peers) :
    s.Numbers p.abandon.1 p.abandon.2 s.nextFlow := by
  cases hpresence : p.presence with
  | running phase =>
    exact hs.numbers_numbered hp (.inr ⟨phase, hpresence⟩) p.name_abandon p.persists_abandon _
  | connected | idle | gone =>
    unfold Peer.abandon
    rw [hpresence]
    exact hs.numbers_flow hp rfl

/-- A connection gets a number when it is run, unless it was disposed of. -/
theorem numbers_run (hs : s.Numbered) (hp : p ∈ s.peers) :
    s.Numbers (p.run s.nextFlow s.cancelled s.node).1 (p.run s.nextFlow s.cancelled s.node).2
      (if p.isUnnumbered then s.nextFlow + 1 else s.nextFlow) := by
  have hname := name_run p s.nextFlow s.cancelled s.node
  cases hpresence : p.presence with
  | idle =>
    have hnumbered : p.isUnnumbered = false := by rw [Peer.isUnnumbered, hpresence]
    rw [hnumbered]
    rw [Peer.run_of_idle hpresence] at hname ⊢
    exact hs.numbers_numbered hp (.inl hpresence) hname (p.persists_start s.node) _
  | running | gone =>
    have hnumbered : p.isUnnumbered = false := by rw [Peer.isUnnumbered, hpresence]
    rw [hnumbered, Peer.run_of_busy (by rw [hpresence]; exact Presence.noConfusion)
      (by rw [hpresence]; exact Presence.noConfusion)]
    exact hs.numbers_flow hp rfl
  | connected =>
    have hunnumbered : p.isUnnumbered = !p.flow.isDisposed := by rw [Peer.isUnnumbered, hpresence]
    rw [hunnumbered]
    cases hdisposed : p.flow.isDisposed with
    | true =>
      rw [Peer.run_of_disposed hpresence hdisposed]
      refine numbers_same hp (name_afterRun p _) (p.persists_afterRun _).id fun hzero => ?_
      obtain ⟨hhandled, -⟩ := hs.unnumbered p hp hzero
      rw [Peer.afterRun, hhandled]
      exact ⟨rfl, rfl, .inr rfl⟩
    | false =>
      have hid : _ = s.nextFlow := (Peer.persists_start
        { p with flow := { p.flow with id := s.nextFlow, cancelled := s.cancelled } } s.node).id
      rw [Peer.run_of_connected hpresence hdisposed]
      exact ⟨.inr ⟨hid, rfl⟩, fun hzero =>
        absurd (hid.symm.trans hzero) (Int.ne_of_gt hs.next_pos)⟩

/-- Whatever the flow of a peer does, its number is kept, or new. -/
theorem numbers_turn (hs : s.Numbered) (hp : p ∈ s.peers)
    (hturn : Turn s p step p' requests next) : s.Numbers p' requests next := by
  cases hturn with
  | poll => exact hs.numbers_poll hp
  | abandon => exact hs.numbers_abandon hp
  | run => exact hs.numbers_run hp
  | runOnce hidle =>
    exact hs.numbers_numbered hp (.inl hidle) (name_runOnce p s.node) (p.persists_runOnce s.node) _
  | farEnd | requestClose | disposeConnection => exact hs.numbers_flow hp rfl
  | handshake => exact hs.numbers_flow hp (p.flow.persists_handshake s.node.name).id
  | closeFlow => exact hs.numbers_flow hp p.flow.persists_close.id
  | dropFlow =>
    exact numbers_same hp rfl rfl fun hzero => ⟨rfl, (hs.unnumbered p hp hzero).1, .inr rfl⟩

/-- A flow that is opened gets the next number. -/
theorem numbers_openFlow (hs : s.Numbered) (peer : String) :
    s.Numbers
      { name := peer, flow := .create s.nextFlow .idle s.cancelled, handled := true,
        presence := .idle, result := none } [] (s.nextFlow + 1) :=
  ⟨.inr ⟨rfl, rfl⟩, fun hzero => absurd hzero (Int.ne_of_gt hs.next_pos)⟩

/-- A connection has no number. -/
theorem numbers_openConnection (peer : String) :
    s.Numbers
      { name := peer, flow := .create 0 .idle s.cancelled, handled := false,
        presence := .connected, result := none } [] s.nextFlow :=
  ⟨.inl ⟨.inl rfl, rfl⟩, fun _ => ⟨rfl, rfl, .inl rfl⟩⟩

/-- All flows are asked to stop. -/
theorem cancel (hs : s.Numbered) :
    Numbered
      { s with
        cancelled := true
        peers := s.peers.map fun p => { p with flow := p.flow.cancel } } := by
  refine ⟨hs.next_pos, fun q hq => ?_, fun q hq r hr heq => ?_, fun q hq hzero => ?_⟩
  · obtain ⟨p, hp, rfl⟩ := List.mem_map.1 hq
    exact hs.numbers p hp
  · obtain ⟨p, hp, rfl⟩ := List.mem_map.1 hq
    obtain ⟨p', hp', rfl⟩ := List.mem_map.1 hr
    exact hs.injective p hp p' hp' heq
  · obtain ⟨p, hp, rfl⟩ := List.mem_map.1 hq
    exact hs.unnumbered p hp hzero

end Numbered

theorem numbered_ofNode (n : Node) : (ofNode n).Numbered :=
  ⟨Int.one_pos, List.forall_mem_nil _, List.forall_mem_nil _, List.forall_mem_nil _⟩

end Session

end Parley.Chat
