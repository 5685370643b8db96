import Parley.Proofs.Chat.Conversation
import Parley.Proofs.Chat.Deeds

/-!
# The life of a flow

Whatever is done in a session, in whatever order, and wherever runs are given up, each flow
goes from `created` to `closed` and never back. An active flow has had its handshake; one
that has given its link up is closed; and one that was run before refuses to run.

- `FlowState.age`: how far a flow is in its life.
- `Flow.Sound`: what holds of a flow at any time. Every deed keeps it (`Flow.Deed.sound`).
- `Peer.Steady`: the flow of a peer stands where its run does.
- `Peer.Follows`: what becomes of a peer in a step. Every turn is of that kind
  (`Session.Turn.follows`).
- `Session.Steady`: what holds of a session at any time (`Session.steady_followAll`).
- `Session.exists_follows`: what becomes of each peer in a step.
- `Session.life_of_mem_peers`: the life of each flow.
-/

namespace Parley.Chat

open Wire

/-- How far a flow is in its life. -/
def FlowState.age : FlowState → Nat
  | .created => 0
  | .handshaking => 1
  | .active => 2
  | .closed => 3

/-- Nothing comes behind `closed`. -/
theorem FlowState.eq_closed_of_age_le {state : FlowState} (h : FlowState.closed.age ≤ state.age) :
    state = .closed := by
  cases state with
  | closed => rfl
  | created | handshaking | active => exact absurd h (by decide)

/-! ## What every deed keeps -/

namespace Flow

/-- What holds of the flow of a node called `name` at any time. -/
structure Sound (name : String) (f : Flow) : Prop where
  named : f.remoteName.isSome = true →
    f.validated = true ∧ f.localName = some name ∧ f.remoteName ≠ some ""
  nameless : f.remoteName = none → f.localName = none
  active : f.state = .active → f.remoteName.isSome = true
  disposed : f.isDisposed = true → f.state = .closed

theorem sound_create (name : String) (id : FlowId) (stream : Stream) (cancelled : Bool) :
    (create id stream cancelled).Sound name where
  named h := nomatch h
  nameless _ := rfl
  active h := nomatch h
  disposed h := nomatch h

variable {name : String} {halted : Bool} {f f' : Flow}

/-- A flow that is not closed has its link. -/
theorem Sound.not_disposed (h : f.Sound name) (hstate : f.state ≠ .closed) :
    ¬ f.isDisposed = true :=
  fun hdisposed => hstate (h.disposed hdisposed)

theorem decodeLossy_ne_empty {payload : Bytes} (h : payload ≠ []) :
    some (Text.Utf8.decodeLossy payload) ≠ some "" := by
  intro heq
  exact Text.Utf8.decodeLossy_ne_empty h (Option.some.inj heq)

theorem Deed.sound (hdeed : Deed name halted f f') (h : f.Sound name) : f'.Sound name := by
  cases hdeed with
  | number | offerSignature | offerName | read | sendLines | cancel | flush =>
    exact ⟨h.named, h.nameless, h.active, h.disposed⟩
  | begin hstate =>
    have hopen := h.not_disposed (by rw [hstate]; decide)
    exact ⟨h.named, h.nameless, fun hactive => (nomatch hactive),
      fun hdisposed => absurd hdisposed hopen⟩
  | activate hstate hintroduced =>
    have hopen := h.not_disposed (by rw [hstate]; decide)
    exact ⟨h.named, h.nameless, fun _ => isSome_of_isIntroduced hintroduced,
      fun hdisposed => absurd hdisposed hopen⟩
  | validate hunvalidated =>
    refine ⟨fun hname => ?_, h.nameless, h.active, h.disposed⟩
    obtain ⟨hvalidated, -⟩ := h.named hname
    cases hunvalidated.symm.trans hvalidated
  | introduce hvalidated hnameless hpayload =>
    exact ⟨fun _ => ⟨hvalidated, rfl, decodeLossy_ne_empty hpayload⟩, fun hnone => (nomatch hnone),
      fun _ => rfl, h.disposed⟩
  | close => exact ⟨h.named, h.nameless, fun hactive => (nomatch hactive), fun _ => rfl⟩
  | release hstate =>
    exact ⟨h.named, h.nameless, fun hactive => (nomatch hstate.symm.trans hactive), fun _ => hstate⟩

theorem Does.sound (hdoes : Does name halted f f') (h : f.Sound name) : f'.Sound name := by
  induction hdoes with
  | refl => exact h
  | tail _ hdeed ih => exact hdeed.sound ih

/-- A flow goes forward only. -/
theorem Deed.age_le (hdeed : Deed name halted f f') : f.state.age ≤ f'.state.age := by
  cases hdeed with
  | begin hstate =>
    show f.state.age ≤ 1
    rw [hstate]
    decide
  | activate hstate =>
    show f.state.age ≤ 2
    rw [hstate]
    decide
  | close =>
    show f.state.age ≤ 3
    cases f.state <;> decide
  | number | offerSignature | offerName | read | validate | introduce | sendLines | cancel | flush
  | release => exact Nat.le_refl _

theorem Does.age_le (hdoes : Does name halted f f') : f.state.age ≤ f'.state.age := by
  induction hdoes with
  | refl => exact Nat.le_refl _
  | tail _ hdeed ih => exact Nat.le_trans ih hdeed.age_le

/-- A flow that has ended for good stays so. -/
theorem Deed.over (hdeed : Deed name halted f f') (h : f.Over) : f'.Over := by
  cases hdeed with
  | number _ hstate | begin hstate | activate hstate => cases hstate.symm.trans h.state
  | offerSignature | offerName | read | validate | introduce | sendLines | flush =>
    exact ⟨h.state, h.cancelled, h.holding⟩
  | cancel => exact ⟨h.state, rfl, h.holding⟩
  | close => exact ⟨rfl, rfl, h.holding⟩
  | release _ hless => exact ⟨h.state, h.cancelled, hless h.holding⟩

theorem Does.over (hdoes : Does name halted f f') (h : f.Over) : f'.Over := by
  induction hdoes with
  | refl => exact h
  | tail _ hdeed ih => exact hdeed.over ih

/-- When all flows are asked to stop, each of them is. -/
theorem Deed.stops (hdeed : Deed name halted f f') (h : halted = true → f.cancelled = true) :
    halted = true → f'.cancelled = true := by
  intro hhalted
  cases hdeed with
  | number => exact hhalted
  | begin | offerSignature | offerName | read | validate | introduce | activate | sendLines | flush
  | release => exact h hhalted
  | cancel | close => rfl

theorem Does.stops (hdoes : Does name halted f f') (h : halted = true → f.cancelled = true) :
    halted = true → f'.cancelled = true := by
  induction hdoes with
  | refl => exact h
  | tail _ hdeed ih => exact hdeed.stops ih

/-- Dropping a flow that has ended for good changes nothing. -/
theorem Over.drop_eq (h : f.Over) : f.drop = f := by
  cases f
  obtain ⟨rfl, rfl, rfl⟩ := h
  rfl

/-- What becomes of a flow in a step: it does something, or its far end does. -/
inductive Lives (name : String) (halted : Bool) (f : Flow) : Bytes → Flow → Prop
  | does {f' : Flow} (hdoes : Does name halted f f') : Lives name halted f [] f'
  | happens (event : Stream.FarEvent) :
      Lives name halted f event.chunk { f with link := f.link.happen event }

variable {chunk : Bytes}

theorem Lives.sound (hlives : f.Lives name halted chunk f') (h : f.Sound name) :
    f'.Sound name := by
  cases hlives with
  | does hdoes => exact hdoes.sound h
  | happens event => exact ⟨h.named, h.nameless, h.active, h.disposed⟩

theorem Lives.age_le (hlives : f.Lives name halted chunk f') : f.state.age ≤ f'.state.age := by
  cases hlives with
  | does hdoes => exact hdoes.age_le
  | happens event => exact Nat.le_refl _

theorem Lives.stops (hlives : f.Lives name halted chunk f')
    (h : halted = true → f.cancelled = true) : halted = true → f'.cancelled = true := by
  cases hlives with
  | does hdoes => exact hdoes.stops h
  | happens event => exact h

end Flow

/-! ## Peers -/

/-- Whether the run of a flow may stand here. -/
def Presence.Suits (handled : Bool) (f : Flow) : Presence → Prop
  | .connected => handled = false ∧ (f.state = .created ∨ f.Over)
  | .idle => handled = true
  | .running phase => phase.Suits f
  | .gone => f.Over

/-- What the phase of a run depends on. -/
theorem Phase.Suits.congr {f f' : Flow} {phase : Phase} (h : phase.Suits f)
    (hstate : f'.state = f.state) (hvalidated : f'.validated = f.validated)
    (hname : f'.remoteName = f.remoteName) (hcancelled : f.cancelled = true → f'.cancelled = true)
    (hholding : f'.holding = f.holding) : phase.Suits f' := by
  cases phase with
  | handshaking stage =>
    obtain ⟨hstate', hsuits⟩ := h
    refine ⟨hstate.trans hstate', ?_⟩
    cases stage with
    | signature stage => exact ⟨hvalidated.trans hsuits.1, hname.trans hsuits.2⟩
    | names stage => exact ⟨hvalidated.trans hsuits.1, hname.trans hsuits.2⟩
  | pumping outbox sending receiving =>
    obtain ⟨hstate', hintroduced⟩ := h
    refine ⟨hstate.trans hstate', ?_⟩
    rw [Flow.isIntroduced, hvalidated, hname]
    exact hintroduced
  | closing result =>
    exact ⟨hstate.trans h.state, hcancelled h.cancelled, hholding.trans h.holding⟩

theorem Presence.Suits.congr {f f' : Flow} {handled : Bool} {presence : Presence}
    (h : presence.Suits handled f) (hstate : f'.state = f.state)
    (hvalidated : f'.validated = f.validated) (hname : f'.remoteName = f.remoteName)
    (hcancelled : f.cancelled = true → f'.cancelled = true) (hholding : f'.holding = f.holding) :
    presence.Suits handled f' := by
  have hover : f.Over → f'.Over := fun h =>
    ⟨hstate.trans h.state, hcancelled h.cancelled, hholding.trans h.holding⟩
  cases presence with
  | connected =>
    obtain ⟨hhandled, hcreated | hended⟩ := h
    · exact ⟨hhandled, .inl (hstate.trans hcreated)⟩
    · exact ⟨hhandled, .inr (hover hended)⟩
  | idle => exact h
  | running phase => exact Phase.Suits.congr h hstate hvalidated hname hcancelled hholding
  | gone => exact hover h

namespace Peer

/-- What holds of a peer of a node called `name` at any time. -/
structure Steady (name : String) (p : Peer) : Prop where
  sound : p.flow.Sound name
  suits : p.presence.Suits p.handled p.flow

/-- What becomes of a peer in a step in which these bytes arrive from it, and its flow asks
for so much. -/
structure Follows (name : String) (halted : Bool) (p : Peer) (chunk : Bytes)
    (requests : List Request) (p' : Peer) : Prop where
  name_eq : p'.name = p.name
  lives : p.flow.Lives name halted chunk p'.flow
  steady : p'.Steady name
  silent : p'.flow.remoteName = none → requests = []

variable {name : String} {halted : Bool} {p p' : Peer} {n : Node}

theorem Steady.follows (h : p.Steady name) : p.Follows name halted [] [] p :=
  ⟨rfl, .does (.refl _), h, fun _ => rfl⟩

/-- Whatever an idle flow does, it may be idle after that. -/
theorem Steady.fits_of_idle {flow : Flow} (h : p.Steady name) (hidle : p.presence = .idle) :
    p.presence.Suits p.handled flow := by
  have hsuits := h.suits
  rw [hidle] at hsuits ⊢
  exact hsuits

/-- The flow of a peer does something, of which nobody is told. -/
theorem Steady.follows_does {flow : Flow} (h : p.Steady name)
    (hdoes : Flow.Does name halted p.flow flow) (hsuits : p.presence.Suits p.handled flow) :
    p.Follows name halted [] [] { p with flow } :=
  ⟨rfl, .does hdoes, ⟨hdoes.sound h.sound, hsuits⟩, fun _ => rfl⟩

/-- The flow of a peer is dropped. -/
theorem Steady.follows_drop (h : p.Steady name) :
    p.Follows name halted [] [] { p with flow := p.flow.drop, presence := .gone } := by
  have hdrops : Flow.Does name halted p.flow p.flow.drop := p.flow.does_drop
  exact ⟨rfl, .does hdrops, ⟨hdrops.sound h.sound, p.flow.over_drop⟩, fun _ => rfl⟩

/-! ### Runs -/

/-- A run that ends leaves its flow where it is, or drops it with its connection. -/
theorem follows_afterRun {requests : List Request} {flow : Flow} {result : FlowResult}
    (hs : p.flow.Sound name) (hdoes : Flow.Does name halted p.flow flow)
    (hsilent : flow.remoteName = none → requests = []) :
    p.Follows name halted [] requests (afterRun { p with flow } result) := by
  have hsound := hdoes.sound hs
  unfold afterRun
  split
  case isTrue hhandled => exact ⟨rfl, .does hdoes, ⟨hsound, hhandled⟩, hsilent⟩
  case isFalse =>
    have hdrops : Flow.Does name halted p.flow flow.drop := hdoes.trans flow.does_drop
    exact ⟨rfl, .does hdrops, ⟨hdrops.sound hs, flow.over_drop⟩, hsilent⟩

/-- A run that got somewhere. -/
theorem follows_settle {progress : Flow.RunProgress} {flow : Flow} {requests : List Request}
    (hs : p.flow.Sound name) (h : Flow.Goes name halted p.flow (progress, flow, requests)) :
    p.Follows name halted [] requests (p.settle progress flow) := by
  cases progress with
  | waiting phase => exact ⟨rfl, .does h.does, ⟨h.does.sound hs, h.suits⟩, h.asks⟩
  | finished result => exact follows_afterRun hs h.does h.asks

theorem named_of_sound (hs : p.flow.Sound name) :
    p.flow.remoteName.isSome = true → p.flow.validated = true :=
  fun hname => (hs.named hname).1

/-- A flow whose run is begun, or refused. -/
theorem follows_start (hname : n.name = name) (hs : p.flow.Sound name) :
    p.Follows name halted [] (p.start n).2 (p.start n).1 := by
  unfold start
  by_cases hstate : p.flow.state = .created
  case pos =>
    exact follows_settle hs (Flow.goes_start n hname hstate (named_of_sound hs))
  case neg =>
    rw [Flow.start_of_ne_created n hstate]
    exact follows_afterRun hs (.refl _) fun _ => rfl

theorem Steady.follows_poll (h : p.Steady name) (hname : n.name = name) :
    p.Follows name halted [] (p.poll n).2 (p.poll n).1 := by
  have hsuits := h.suits
  unfold poll
  cases hpresence : p.presence with
  | running phase =>
    rw [hpresence] at hsuits
    exact follows_settle h.sound (Flow.goes_poll n hname hsuits)
  | connected | idle | gone => exact h.follows

/-- A connection that was not disposed of is fresh. -/
theorem Steady.created_of_connected (h : p.Steady name) (hconnected : p.presence = .connected)
    (hopen : p.flow.isDisposed = false) : p.flow.state = .created := by
  have hsuits := h.suits
  rw [hconnected] at hsuits
  obtain ⟨-, hcreated | hended⟩ := hsuits
  · exact hcreated
  · rw [Flow.isDisposed, hended.holding] at hopen
    exact absurd hopen (by decide)

theorem Steady.follows_run (h : p.Steady name) (hname : n.name = name) (id : FlowId) :
    p.Follows name halted [] (p.run id halted n).2 (p.run id halted n).1 := by
  cases hpresence : p.presence with
  | idle =>
    rw [run_of_idle hpresence]
    exact follows_start hname h.sound
  | connected =>
    cases hdisposed : p.flow.isDisposed with
    | true =>
      rw [run_of_disposed hpresence hdisposed]
      exact follows_afterRun h.sound (.refl _) fun _ => rfl
    | false =>
      have hcreated := h.created_of_connected hpresence hdisposed
      have hnumber : Flow.Does name halted p.flow { p.flow with id, cancelled := halted } :=
        (Flow.Deed.number id hcreated).does
      have hgoes : Flow.Goes name halted { p.flow with id, cancelled := halted }
          (Flow.start { p.flow with id, cancelled := halted } n) :=
        Flow.goes_start n hname hcreated (named_of_sound h.sound)
      rw [run_of_connected hpresence hdisposed]
      exact follows_settle h.sound (hgoes.of_does hnumber)
  | running phase =>
    rw [run_of_busy (by rw [hpresence]; exact Presence.noConfusion)
      (by rw [hpresence]; exact Presence.noConfusion)]
    exact h.follows
  | gone =>
    rw [run_of_busy (by rw [hpresence]; exact Presence.noConfusion)
      (by rw [hpresence]; exact Presence.noConfusion)]
    exact h.follows

/-- A run that is begun, and given up when it has to wait. -/
theorem Steady.follows_runOnce (h : p.Steady name) (hname : n.name = name)
    (hidle : p.presence = .idle) :
    p.Follows name halted [] (p.runOnce n).2.2 (p.runOnce n).2.1 := by
  have hkeeps : ∀ {flow : Flow} {requests : List Request},
      Flow.Does name halted p.flow flow → (flow.remoteName = none → requests = []) →
        p.Follows name halted [] requests { p with flow } := fun hdoes hsilent =>
    ⟨rfl, .does hdoes, ⟨hdoes.sound h.sound, h.fits_of_idle hidle⟩, hsilent⟩
  unfold runOnce
  by_cases hstate : p.flow.state = .created
  case neg =>
    rw [Flow.start_of_ne_created n hstate]
    exact hkeeps (.refl _) fun _ => rfl
  case pos =>
    have hgoes : Flow.Goes name halted p.flow (p.flow.start n) :=
      Flow.goes_start n hname hstate (named_of_sound h.sound)
    generalize p.flow.start n = result at hgoes ⊢
    obtain ⟨phase | result, flow, requests⟩ := result
    case finished => exact hkeeps hgoes.does hgoes.asks
    case waiting =>
      have habandon : Flow.Does name halted flow (flow.abandon phase).1 :=
        Flow.does_abandon hgoes.suits
      refine hkeeps (hgoes.does.trans habandon) fun hnameless => ?_
      have hnone : requests = [] :=
        hgoes.asks ((flow.remoteName_abandon phase).symm.trans hnameless)
      show requests ++ (flow.abandon phase).2 = []
      rw [hnone, List.nil_append]
      exact Flow.asks_abandon hgoes.suits hnameless

/-- A run that is given up where it stands. -/
theorem Steady.follows_abandon (h : p.Steady name) :
    p.Follows name halted [] p.abandon.2 p.abandon.1 := by
  have hsuits := h.suits
  unfold abandon
  split
  case h_1 phase hpresence =>
    rw [hpresence] at hsuits
    have hgiven : Flow.Does name halted p.flow (p.flow.abandon phase).1 := Flow.does_abandon hsuits
    have hasks := Flow.asks_abandon hsuits
    generalize p.flow.abandon phase = given at hgiven hasks
    obtain ⟨flow, requests⟩ := given
    dsimp only
    split
    case isTrue hhandled => exact ⟨rfl, .does hgiven, ⟨hgiven.sound h.sound, hhandled⟩, hasks⟩
    case isFalse =>
      have hdrops : Flow.Does name halted p.flow flow.drop := hgiven.trans flow.does_drop
      exact ⟨rfl, .does hdrops, ⟨hdrops.sound h.sound, flow.over_drop⟩, hasks⟩
  case h_2 => exact h.follows

/-- A flow that is asked to stop. -/
theorem Steady.follows_requestClose (h : p.Steady name) (hhandled : p.handled = true) :
    p.Follows name halted [] [] { p with flow := p.flow.requestClose } := by
  have hsuits := h.suits
  have hdoes : Flow.Does name halted p.flow p.flow.requestClose := p.flow.does_requestClose
  refine h.follows_does hdoes ?_
  by_cases hstate : p.flow.state = .created
  case neg => exact hsuits.congr (if_neg hstate) rfl rfl (fun _ => rfl) rfl
  case pos =>
    -- Such a flow is not running, so that it may be closed at once.
    generalize p.presence = presence at hsuits ⊢
    cases presence with
    | connected => cases hhandled.symm.trans hsuits.1
    | idle => exact hhandled
    | running phase =>
      cases phase with
      | handshaking | pumping => cases hstate.symm.trans hsuits.1
      | closing => cases hstate.symm.trans hsuits.state
    | gone => cases hstate.symm.trans hsuits.state

end Peer

/-! ## Steps -/

namespace Session

/-- Whether a new flow is opened for a peer in a step. -/
def Step.Opens (peer : String) (step : Step) : Prop :=
  step = .perform (.openFlow peer) ∨ step = .perform (.openConnection peer)

/-- What the flow of a peer asks for in a step. -/
def requestsOf (peer : String) (s : Session) (step : Step) : List Request :=
  if step.subject = some peer then s.requests step else []

/-- What holds of a session at any time. -/
structure Steady (name : String) (s : Session) : Prop where
  distinct : s.Distinct
  named : s.node.name = name
  peers : ∀ p ∈ s.peers, p.Steady name
  stops : ∀ p ∈ s.peers, s.cancelled = true → p.flow.cancelled = true

variable {name : String} {s : Session} {p p' q : Peer} {step : Step} {requests : List Request}
  {next : FlowId}

theorem chunk_farEnd (peer : String) (event : Stream.FarEvent) :
    Step.chunk peer (.perform (.farEnd peer event)) = event.chunk := by
  cases event with
  | arrive chunk => exact if_pos rfl
  | fail | finish | accept => rfl

/-- Whatever a peer does, its flow lives on. -/
theorem Turn.follows (hturn : Turn s p step p' requests next) (hname : s.node.name = name)
    (h : p.Steady name) : p.Follows name s.cancelled (step.chunk p.name) requests p' := by
  have hsuits := h.suits
  cases hturn with
  | poll => exact h.follows_poll hname
  | abandon => exact h.follows_abandon
  | run => exact h.follows_run hname s.nextFlow
  | runOnce hidle => exact h.follows_runOnce hname hidle
  | farEnd event =>
    rw [chunk_farEnd]
    have hlives : p.flow.Lives name s.cancelled event.chunk
        { p.flow with link := p.flow.link.happen event } := .happens event
    exact ⟨rfl, hlives, ⟨hlives.sound h.sound, hsuits.congr rfl rfl rfl id rfl⟩, fun _ => rfl⟩
  | handshake hidle =>
    have hdoes : Flow.Does name s.cancelled p.flow (p.flow.handshake s.node.name).2 :=
      hname ▸ Flow.does_handshake (Peer.named_of_sound h.sound)
    exact h.follows_does hdoes (h.fits_of_idle hidle)
  | closeFlow hidle => exact h.follows_does p.flow.does_close (h.fits_of_idle hidle)
  | requestClose hhandled => exact h.follows_requestClose hhandled
  | dropFlow => exact h.follows_drop
  | disposeConnection hconnected =>
    rw [hconnected] at hsuits
    refine h.follows_does p.flow.does_drop ?_
    rw [hconnected]
    exact ⟨hsuits.1, .inr p.flow.over_drop⟩

/-- Bytes arrive in steps of the far end only. -/
theorem chunk_eq_nil {peer : String} (h : ∀ event, step ≠ .perform (.farEnd peer event)) :
    step.chunk peer = [] := by
  unfold Step.chunk
  split
  case h_1 other chunk =>
    refine if_neg fun heq => ?_
    subst heq
    exact h _ rfl
  case h_2 => rfl

theorem requestsOf_of_subject_ne {peer : String} (h : step.subject ≠ some peer) :
    s.requestsOf peer step = [] :=
  if_neg h

theorem SamePeers.name_eq {s' : Session} (h : s.SamePeers s') : s'.node.name = s.node.name := by
  obtain ⟨requests, hnode⟩ := h.node
  rw [hnode, Node.name_serveAll]

theorem name_follow (s : Session) (step : Step) : (s.follow step).node.name = s.node.name := by
  have heffect := s.effect_follow step
  generalize s.requests step = requests, s.follow step = s' at heffect
  cases heffect with
  | still | openFlow | openConnection | cancel => rfl
  | turn => exact Node.name_serveAll ..
  | typeLine line => exact Node.name_typeLine line s.node
  | endTyping => exact Node.name_endTyping s.node
  | closeConsole => exact Node.name_closeConsole s.node
  | broadcast line => exact Node.name_serve s.node (.broadcast line)
  | consume sender line => exact Node.name_serve s.node (.consume sender line)
  | openOutbox key => exact (s.samePeers_openOutbox key).name_eq
  | nextLine key => exact (s.samePeers_nextLine key).name_eq
  | closeOutbox key => exact (s.samePeers_closeOutbox key).name_eq

/-- What becomes of a peer when its far end does something. -/
theorem follows_of_mem_farEnd {event : Stream.FarEvent} (h : s.Steady name)
    (hq : q ∈ (s.follow (.perform (.farEnd q.name event))).peers) :
    ∃ p ∈ s.peers, p.Follows name s.cancelled event.chunk [] q := by
  simp only [follow, perform, withPeer] at hq
  cases hpeer : s.peer? q.name with
  | none =>
    rw [hpeer] at hq
    cases hpeer.symm.trans (peer?_of_mem h.distinct hq)
  | some p =>
    obtain ⟨hp, hname⟩ := mem_of_peer? hpeer
    rw [hpeer] at hq
    obtain hq | ⟨-, hne⟩ := mem_setPeer.1 hq
    · have hturn : Turn s p (.perform (.farEnd p.name event))
          { p with flow := { p.flow with link := p.flow.link.happen event } } [] s.nextFlow :=
        .farEnd event
      have hfollows := hturn.follows h.named (h.peers p hp)
      rw [chunk_farEnd] at hfollows
      rw [hq]
      exact ⟨p, hp, hfollows⟩
    · exact absurd hname.symm hne

/-- A peer of which a step says nothing stays as it is. -/
theorem follows_of_mem (h : s.Steady name) (hq : q ∈ s.peers) (hchunk : step.chunk q.name = [])
    (hrequests : s.requestsOf q.name step = []) :
    ∃ p ∈ s.peers,
      p.Follows name s.cancelled (step.chunk q.name) (s.requestsOf q.name step) q := by
  rw [hchunk, hrequests]
  exact ⟨q, hq, (h.peers q hq).follows⟩

/-- A peer of a session stays until another one is opened under its name. -/
theorem follows_of_mem_follow (h : s.Steady name) (hq : q ∈ (s.follow step).peers)
    (hopens : ¬ step.Opens q.name) :
    ∃ p ∈ s.peers,
      p.Follows name s.cancelled (step.chunk q.name) (s.requestsOf q.name step) q := by
  by_cases hfar : ∃ event, step = .perform (.farEnd q.name event)
  case pos =>
    obtain ⟨event, rfl⟩ := hfar
    have hrequests : s.requestsOf q.name (.perform (.farEnd q.name event)) = [] := if_pos rfl
    rw [hrequests, chunk_farEnd]
    exact follows_of_mem_farEnd h hq
  case neg =>
    have hchunk : step.chunk q.name = [] := chunk_eq_nil fun event heq => hfar ⟨event, heq⟩
    have hstays : q ∈ s.peers → s.requestsOf q.name step = [] → _ := fun hq =>
      follows_of_mem h hq hchunk
    have hnobody : none ≠ some q.name := (Option.some_ne_none q.name).symm
    have heffect := s.effect_follow step
    generalize hrequests : s.requests step = requests, s.follow step = s' at heffect hq
    cases heffect with
    | still =>
      refine hstays hq ?_
      rw [requestsOf, hrequests, ite_self]
    | @turn p p' _ _ next hp hturn =>
      obtain rfl | ⟨hq, hne⟩ := mem_setPeer.1 hq
      · have hfollows := hturn.follows h.named (h.peers p hp)
        rw [← hturn.name_eq, ← hrequests] at hfollows
        rw [requestsOf, if_pos (hturn.subject_eq.trans (congrArg some hturn.name_eq.symm))]
        exact ⟨p, hp, hfollows⟩
      · refine hstays hq (requestsOf_of_subject_ne fun hsubject => hne ?_)
        exact (Option.some.inj (hturn.subject_eq.symm.trans hsubject)).symm.trans
          hturn.name_eq.symm
    | openFlow other =>
      obtain rfl | ⟨hq, hne⟩ := mem_setPeer.1 hq
      · exact absurd (.inl rfl) hopens
      · exact hstays hq (requestsOf_of_subject_ne fun hsubject =>
          hne (Option.some.inj hsubject).symm)
    | openConnection other =>
      obtain rfl | ⟨hq, hne⟩ := mem_setPeer.1 hq
      · exact absurd (.inr rfl) hopens
      · exact hstays hq (requestsOf_of_subject_ne fun hsubject =>
          hne (Option.some.inj hsubject).symm)
    | cancel =>
      obtain ⟨p, hp, rfl⟩ := List.mem_map.1 hq
      have hsteady := h.peers p hp
      have hcancels : p.Follows name s.cancelled [] [] { p with flow := p.flow.cancel } :=
        hsteady.follows_does Flow.Deed.cancel.does
          (hsteady.suits.congr rfl rfl rfl (fun _ => rfl) rfl)
      exact ⟨p, hp, hcancels⟩
    | typeLine | endTyping | closeConsole | broadcast | consume =>
      exact hstays hq (requestsOf_of_subject_ne hnobody)
    | openOutbox key =>
      exact hstays ((s.samePeers_openOutbox key).peers ▸ hq)
        (requestsOf_of_subject_ne hnobody)
    | nextLine key =>
      exact hstays ((s.samePeers_nextLine key).peers ▸ hq)
        (requestsOf_of_subject_ne hnobody)
    | closeOutbox key =>
      exact hstays ((s.samePeers_closeOutbox key).peers ▸ hq)
        (requestsOf_of_subject_ne hnobody)

/-- Where a peer comes from. -/
inductive Became (s : Session) (step : Step) (q : Peer) : Prop
  | same (hq : q ∈ s.peers)
  | turn {p : Peer} {requests : List Request} {next : FlowId} (hp : p ∈ s.peers)
      (hturn : Turn s p step q requests next)
  | opened (hopens : step.Opens q.name) (hcreated : q.flow.state = .created)
  | cancelled {p : Peer} (hp : p ∈ s.peers) (heq : q = { p with flow := p.flow.cancel })

theorem became_of_mem_follow (hq : q ∈ (s.follow step).peers) : Became s step q := by
  have heffect := s.effect_follow step
  generalize s.requests step = requests, s.follow step = s' at heffect hq
  cases heffect with
  | still | typeLine | endTyping | closeConsole | broadcast | consume => exact .same hq
  | turn hp hturn =>
    obtain rfl | ⟨hq, -⟩ := mem_setPeer.1 hq
    · exact .turn hp hturn
    · exact .same hq
  | openFlow other =>
    obtain rfl | ⟨hq, -⟩ := mem_setPeer.1 hq
    · exact .opened (.inl rfl) rfl
    · exact .same hq
  | openConnection other =>
    obtain rfl | ⟨hq, -⟩ := mem_setPeer.1 hq
    · exact .opened (.inr rfl) rfl
    · exact .same hq
  | cancel =>
    obtain ⟨p, hp, rfl⟩ := List.mem_map.1 hq
    exact .cancelled hp rfl
  | openOutbox key => exact .same ((s.samePeers_openOutbox key).peers ▸ hq)
  | nextLine key => exact .same ((s.samePeers_nextLine key).peers ▸ hq)
  | closeOutbox key => exact .same ((s.samePeers_closeOutbox key).peers ▸ hq)

/-- A peer that was just opened. -/
structure IsOpened (name : String) (halted : Bool) (q : Peer) : Prop where
  flow : ∃ id, q.flow = .create id .idle halted
  steady : q.Steady name

/-- The peer for which a flow is opened has just this flow. -/
theorem isOpened_of_opens (name : String) (hopens : step.Opens q.name)
    (hq : q ∈ (s.follow step).peers) : IsOpened name s.cancelled q := by
  obtain hstep | hstep := hopens
  · rw [hstep] at hq
    obtain hq | ⟨-, hne⟩ := mem_setPeer.1 hq
    · rw [hq]
      exact ⟨⟨_, rfl⟩, Flow.sound_create .., rfl⟩
    · exact absurd rfl hne
  · rw [hstep] at hq
    obtain hq | ⟨-, hne⟩ := mem_setPeer.1 hq
    · rw [hq]
      exact ⟨⟨_, rfl⟩, Flow.sound_create .., rfl, .inl rfl⟩
    · exact absurd rfl hne

theorem steady_ofNode (n : Node) : (ofNode n).Steady n.name where
  distinct := distinct_ofNode n
  named := rfl
  peers := fun _ hp => nomatch hp
  stops := fun _ hp => nomatch hp

theorem steady_follow (h : s.Steady name) (step : Step) : (s.follow step).Steady name where
  distinct := distinct_follow h.distinct step
  named := (s.name_follow step).trans h.named
  peers q hq := by
    by_cases hopens : step.Opens q.name
    case pos => exact (isOpened_of_opens name hopens hq).steady
    case neg =>
      obtain ⟨p, -, hfollows⟩ := follows_of_mem_follow h hq hopens
      exact hfollows.steady
  stops q hq := by
    by_cases hcancel : step = .perform .cancel
    case pos =>
      subst hcancel
      obtain ⟨p, -, rfl⟩ := List.mem_map.1 hq
      exact fun _ => rfl
    case neg =>
      have hcancelled : (s.follow step).cancelled = s.cancelled := s.cancelled_follow hcancel
      rw [hcancelled]
      by_cases hopens : step.Opens q.name
      case pos =>
        obtain ⟨id, hflow⟩ := (isOpened_of_opens name hopens hq).flow
        rw [hflow]
        exact fun h => h
      case neg =>
        obtain ⟨p, hp, hfollows⟩ := follows_of_mem_follow h hq hopens
        exact hfollows.lives.stops (h.stops p hp)

theorem steady_followAll (h : s.Steady name) (steps : List Step) :
    (s.followAll steps).Steady name := by
  induction steps generalizing s with
  | nil => exact h
  | cons step steps ih => exact ih (steady_follow h step)

/-! ## The life of a peer -/

theorem exists_mem_follow (hp : p ∈ s.peers) (step : Step) :
    ∃ q ∈ (s.follow step).peers, q.name = p.name := by
  have hset : ∀ (s : Session) (p' : Peer), p ∈ s.peers →
      ∃ q ∈ (s.setPeer p').peers, q.name = p.name := by
    intro s p' hp
    by_cases hname : p'.name = p.name
    · exact ⟨p', mem_setPeer_self, hname⟩
    · exact ⟨p, mem_setPeer_of_ne hp fun heq => hname heq.symm, rfl⟩
  have heffect := s.effect_follow step
  generalize s.requests step = requests, s.follow step = s' at heffect
  cases heffect with
  | still | typeLine | endTyping | closeConsole | broadcast | consume => exact ⟨p, hp, rfl⟩
  | turn | openFlow | openConnection => exact hset _ _ hp
  | cancel => exact ⟨_, List.mem_map_of_mem hp, rfl⟩
  | openOutbox key => exact ⟨p, (s.samePeers_openOutbox key).peers ▸ hp, rfl⟩
  | nextLine key => exact ⟨p, (s.samePeers_nextLine key).peers ▸ hp, rfl⟩
  | closeOutbox key => exact ⟨p, (s.samePeers_closeOutbox key).peers ▸ hp, rfl⟩

/-- What becomes of a peer in a step that opens no other one in its place. -/
theorem exists_follows (h : s.Steady name) (hp : p ∈ s.peers) (hopens : ¬ step.Opens p.name) :
    ∃ q ∈ (s.follow step).peers,
      p.Follows name s.cancelled (step.chunk p.name) (s.requestsOf p.name step) q := by
  obtain ⟨q, hq, hname⟩ := exists_mem_follow hp step
  rw [← hname] at hopens ⊢
  obtain ⟨p', hp', hfollows⟩ := follows_of_mem_follow h hq hopens
  have heq : p' = p := eq_of_name_eq h.distinct hp' hp (hfollows.name_eq.symm.trans hname)
  exact ⟨q, hq, heq ▸ hfollows⟩

end Session

/-- What becomes of a flow in any number of steps. -/
inductive Flow.Endures (name : String) (f : Flow) : Bytes → Flow → Prop
  | refl : Endures name f [] f
  | tail {halted : Bool} {bytes chunk : Bytes} {f' f'' : Flow} (h : f.Endures name bytes f')
      (hlives : f'.Lives name halted chunk f'') : Endures name f (bytes ++ chunk) f''

namespace Flow

variable {name : String} {bytes bytes' : Bytes} {f f' f'' : Flow}

theorem Endures.trans (h : f.Endures name bytes f') (h' : f'.Endures name bytes' f'') :
    f.Endures name (bytes ++ bytes') f'' := by
  induction h' with
  | refl =>
    rw [List.append_nil]
    exact h
  | tail _ hlives ih =>
    rw [← List.append_assoc]
    exact .tail ih hlives

theorem Endures.age_le (h : f.Endures name bytes f') : f.state.age ≤ f'.state.age := by
  induction h with
  | refl => exact Nat.le_refl _
  | tail _ hlives ih => exact Nat.le_trans ih hlives.age_le

end Flow

namespace Session

variable {name : String} {s : Session} {p : Peer} {n : Node}

/-- Each flow lives on until another one is opened in its place. -/
theorem exists_endures (h : s.Steady name) (hp : p ∈ s.peers) (steps : List Step)
    (hopens : ∀ step ∈ steps, ¬ step.Opens p.name) :
    ∃ q ∈ (s.followAll steps).peers,
      q.name = p.name ∧ p.flow.Endures name (received p.name steps) q.flow := by
  induction steps generalizing s p with
  | nil => exact ⟨p, hp, rfl, .refl⟩
  | cons step steps ih =>
    obtain ⟨hstep, hsteps⟩ := List.forall_mem_cons.1 hopens
    obtain ⟨p', hp', hfollows⟩ := exists_follows h hp hstep
    rw [← hfollows.name_eq] at hsteps
    obtain ⟨q, hq, hname, hendures⟩ := ih (steady_follow h step) hp' hsteps
    have hall := (Flow.Endures.tail .refl hfollows.lives).trans hendures
    rw [List.nil_append, hfollows.name_eq] at hall
    exact ⟨q, hq, hname.trans hfollows.name_eq, hall⟩

/-! ## Runs that are refused -/

/-- The fault of a run that comes too late. -/
def refusal (f : Flow) : FlowFault :=
  if f.state = .closed then .disposed else .alreadyStarted

/-- A flow that was run before refuses to run, and is left alone. -/
theorem follow_run_of_ne_created (h : s.Steady name) (hp : p ∈ s.peers)
    (hfree : p.presence = .idle ∨ p.presence = .connected) (hstate : p.flow.state ≠ .created) :
    ∃ p', s.follow (.perform (.run p.name)) = s.setPeer p' ∧ p'.name = p.name ∧
      p'.flow = p.flow ∧ p'.result = some (.error (refusal p.flow)) := by
  obtain ⟨hsound, hsuits⟩ := h.peers p hp
  rw [follow_run h.distinct hp]
  rcases hfree with hidle | hconnected
  · rw [hidle] at hsuits
    have hrun : p.run s.nextFlow s.cancelled s.node =
        ({ p with presence := .idle, result := some (.error (refusal p.flow)) }, []) := by
      rw [Peer.run_of_idle hidle, Peer.start, Flow.start_of_ne_created s.node hstate]
      exact Prod.ext (if_pos hsuits) rfl
    have hnumbered : p.isUnnumbered = false := by
      unfold Peer.isUnnumbered
      rw [hidle]
    rw [run, hrun, hnumbered]
    exact ⟨_, rfl, rfl, rfl, rfl⟩
  · rw [hconnected] at hsuits
    obtain ⟨hunhandled, hcreated | hended⟩ := hsuits
    · exact absurd hcreated hstate
    · have hdisposed : p.flow.isDisposed = true := by
        rw [Flow.isDisposed, hended.holding]
        rfl
      have hrun : p.run s.nextFlow s.cancelled s.node =
          ({ p with presence := .gone, result := some (.error (refusal p.flow)) }, []) := by
        rw [Peer.run_of_disposed hconnected hdisposed, Peer.afterRun, hunhandled, hended.drop_eq,
          refusal, if_pos hended.state]
        rfl
      have hnumbered : p.isUnnumbered = false := by
        unfold Peer.isUnnumbered
        rw [hconnected, hdisposed]
        rfl
      rw [run, hrun, hnumbered]
      exact ⟨_, rfl, rfl, rfl, rfl⟩

/-- Putting a peer where it is changes nothing. -/
theorem setPeer_of_mem (hs : s.Distinct) (hp : p ∈ s.peers) : s.setPeer p = s := by
  obtain ⟨before, after, hpeers⟩ := List.append_of_mem hp
  rw [setPeer_eq_append hs hpeers rfl, ← hpeers]

/-- The same for a run that would be given up. -/
theorem perform_runOnce_of_ne_created (h : s.Steady name) (hp : p ∈ s.peers)
    (hidle : p.presence = .idle) (hstate : p.flow.state ≠ .created) :
    s.perform (.runOnce p.name) = (.attempt (.done (.error (refusal p.flow))), s) := by
  have hrun : p.runOnce s.node = (.done (.error (refusal p.flow)), p, []) := by
    rw [Peer.runOnce, Flow.start_of_ne_created s.node hstate]
    rfl
  rw [perform_runOnce h.distinct hp hidle, runOnce, hrun]
  exact Prod.ext rfl (setPeer_of_mem h.distinct hp)

/-! ## All sessions -/

/-- **The life of a flow.** Whatever was done in a session, also when runs were given up where
they stood, an active flow is validated and has both names, and one that has given its link up
is closed. Whatever is done then, as long as no other flow is opened in its place, it goes
forward only, and stays closed once it is. A run of a flow that was run or closed before is
refused, and changes nothing but its own result. -/
theorem life_of_mem_peers (n : Node) (steps : List Step) {p : Peer}
    (hp : p ∈ ((ofNode n).followAll steps).peers) :
    (p.flow.state = .active →
        p.flow.validated = true ∧ p.flow.localName = some n.name ∧
          ∃ sender, p.flow.remoteName = some sender ∧ sender ≠ "") ∧
      (p.flow.isDisposed = true → p.flow.state = .closed) ∧
      (∀ more, (∀ step ∈ more, ¬ step.Opens p.name) →
        ∃ q, ((ofNode n).followAll (steps ++ more)).peer? p.name = some q ∧
          p.flow.state.age ≤ q.flow.state.age ∧
          (p.flow.state = .closed → q.flow.state = .closed)) ∧
      (p.flow.state ≠ .created →
        (p.presence = .idle ∨ p.presence = .connected →
          ∃ p', ((ofNode n).followAll steps).follow (.perform (.run p.name)) =
              ((ofNode n).followAll steps).setPeer p' ∧
            p'.name = p.name ∧ p'.flow = p.flow ∧
            p'.result = some (.error (refusal p.flow))) ∧
        (p.presence = .idle →
          ((ofNode n).followAll steps).perform (.runOnce p.name) =
            (.attempt (.done (.error (refusal p.flow))), (ofNode n).followAll steps))) := by
  have hs := steady_followAll (steady_ofNode n) steps
  have hsound := (hs.peers p hp).sound
  refine ⟨fun hactive => ?_, hsound.disposed, fun more hmore => ?_, fun hstate => ⟨?_, ?_⟩⟩
  · have hsome := hsound.active hactive
    obtain ⟨hvalidated, hlocal, hremote⟩ := hsound.named hsome
    obtain ⟨sender, hsender⟩ := Option.isSome_iff_exists.1 hsome
    refine ⟨hvalidated, hlocal, sender, hsender, fun hempty => hremote ?_⟩
    rw [hsender, hempty]
  · obtain ⟨q, hq, hname, hendures⟩ := exists_endures hs hp more hmore
    rw [followAll_append, ← hname]
    have hage := hendures.age_le
    refine ⟨q, peer?_of_mem (steady_followAll hs more).distinct hq, hage, fun hclosed => ?_⟩
    exact FlowState.eq_closed_of_age_le (hclosed ▸ hage)
  · exact fun hfree => follow_run_of_ne_created hs hp hfree hstate
  · exact fun hidle => perform_runOnce_of_ne_created hs hp hidle hstate

/-- A run that was given up in its handshake. -/
def givenUpSteps : List Step :=
  [.perform (.openFlow "ann"), .perform (.runOnce "ann")]

/-- The session in which that was done with a client. -/
def givenUpSession : Session :=
  (ofNode (.newClient "bob")).followAll givenUpSteps

/-- The flow cannot be run again; it stays in its handshake until it is closed. -/
theorem exists_refused_givenUp :
    ∃ p ∈ givenUpSession.peers, p.flow.state = .handshaking ∧
      (∃ p', givenUpSession.follow (.perform (.run "ann")) = givenUpSession.setPeer p' ∧
        p'.flow = p.flow ∧ p'.result = some (.error .alreadyStarted)) ∧
      ∃ q, (givenUpSession.follow (.perform (.closeFlow "ann"))).peer? "ann" = some q ∧
        FlowState.handshaking.age ≤ q.flow.state.age := by
  have hne : givenUpSession.peers ≠ [] := fun h => nomatch h
  obtain ⟨-, -, hforward, hrefused⟩ :=
    life_of_mem_peers (.newClient "bob") givenUpSteps (List.head_mem hne)
  obtain ⟨hrun, -⟩ := hrefused FlowState.noConfusion
  obtain ⟨p', hfollow, -, hflow, hresult⟩ := hrun (.inl rfl)
  have hcloses : ∀ step ∈ [Step.perform (.closeFlow "ann")], ¬ step.Opens "ann" := by
    rintro step hstep (hopens | hopens) <;>
    · rw [hopens] at hstep
      exact nomatch List.mem_singleton.1 hstep
  obtain ⟨q, hq, hage, -⟩ := hforward [.perform (.closeFlow "ann")] hcloses
  exact ⟨_, List.head_mem hne, rfl, ⟨p', hfollow, hflow, hresult⟩, q, hq, hage⟩

end Session

end Parley.Chat
