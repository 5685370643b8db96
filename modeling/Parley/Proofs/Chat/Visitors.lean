import Parley.Proofs.Chat.Handles
import Parley.Proofs.Chat.Owners
import Parley.Proofs.Wire.Payloads

/-!
# Visitors

A visitor connects to a server, shows the signature and gives a name. A run that waits for a
frame has taken all frames that are there, so that it is past its handshake as soon as both have
arrived; and since nothing more comes, it stays there.

- `Flow.short_of_shake`: a handshake that waits has no frame to go on with.
- `Session.exists_entered_poll`: a round in which a visitor gets past the handshake.
- `Peer.Entered.exists_pumping`: where the run of a visitor who got there is.
- `Peer.poll_ne_running`: a run that was asked to stop ends in its next round.
-/

namespace Parley.Chat

open Wire

/-! ## What a visitor sends -/

/-- The bytes from a visitor of this name. -/
def visit (name : String) : Bytes :=
  frameBytes signature ++ frameBytes (Text.Utf8.encode name)

/-- They are the signature and a name, and lines come behind them. -/
theorem conversation_visit {taken : Bool} {name : String} (hname : name ≠ "")
    (hfits : Fits (Text.Utf8.encode name)) (more : Bytes) :
    conversation taken (frames (visit name ++ more)) = chat taken name (frames more) := by
  have hsignature : cutFrame (visit name ++ more) =
      some (.ok signature, frameBytes (Text.Utf8.encode name) ++ more) := by
    rw [visit, List.append_assoc]
    exact cutFrame_event (by decide) _
  have hintroduction : cutFrame (frameBytes (Text.Utf8.encode name) ++ more) =
      some (.ok (Text.Utf8.encode name), more) := by
    rw [cutFrame_event hfits, frameEvent_of_ne_nil (Text.Utf8.encode_ne_nil hname)]
  rw [frames_of_cut hsignature, frames_of_cut hintroduction, conversation, if_pos rfl,
    introduction, Text.Utf8.decodeLossy_encode]

/-- What a visitor comes to depends on the lines behind the name. -/
theorem not_forall_conversation_visit {name : String} (hname : name ≠ "")
    (hfits : Fits (Text.Utf8.encode name)) (outcome : Outcome) :
    ¬ ∀ more, conversation false (frames (visit name ++ more)) = outcome := by
  intro hall
  have hsame := (hall []).trans (hall (frameBytes [0x78])).symm
  rw [conversation_visit hname hfits, conversation_visit hname hfits] at hsame
  have hlines := congrArg (List.length ∘ Outcome.lines) hsame
  rw [show frames (frameBytes [0x78]) = [.ok [0x78]] from by
    rw [← List.append_nil (frameBytes [0x78]),
      frames_of_cut (cutFrame_event (by decide) []), frames_nil]
    rfl, frames_nil] at hlines
  exact nomatch hlines

/-! ## Handshakes that wait -/

/-- Half a handshake waits only where no frame is there. -/
theorem short_of_exchangeThen {α : Type} {l l' : Link} {unread : Bytes} {ended : Bool}
    (h : Awaits l unread ended) {stage stage' : Link.Stage} (hstage : stage ≠ .flushing)
    {payload : Bytes} {check : Reception → Except FlowFault α}
    (hwait : exchangeThen payload check stage l = (.waiting stage', l')) :
    Awaits l' unread ended ∧ cutFrame unread = none := by
  obtain ⟨l₁, hwrites, hempty, hexchange⟩ :=
    Link.exchange_of_everything h.accepts h.flushed hstage payload
  have hlink := h.of_onlyWrites hwrites hempty
  have hreceive := Link.reads_receive hlink.tidy
  have hreads := l₁.onlyReads_receive
  rw [exchangeThen, hexchange, Link.exchangeReceive] at hwait
  generalize l₁.receive = received at hwait hreceive hreads
  obtain ⟨attempt, l₂⟩ := received
  cases hreceive with
  | frame | stop => cases hwait
  | wait hcut _ htidy =>
    cases hwait
    exact ⟨hlink.of_onlyReads hreads htidy, hcut⟩

/-- The bytes that were not made into frames are determined by the link. -/
theorem Awaits.unread_eq {l : Link} {unread unread' : Bytes} {ended ended' : Bool}
    (h : Awaits l unread ended) (h' : Awaits l unread' ended') : unread = unread' :=
  h.tidy.unread_eq.symm.trans h'.tidy.unread_eq

namespace Flow

variable {taken : Bool} {received : Bytes} {heard : List (String × String)} {ended : Bool}
  {f f' : Flow} {n : Node} {stage stage' : HandshakeStage} {ownName : String}

theorem short_of_names {unread : Bytes} (hlink : Awaits f.link unread ended) {half : Link.Stage}
    (hhalf : half ≠ .flushing) (hwait : f.names ownName half = (.waiting stage', f')) :
    Awaits f'.link unread ended ∧ cutFrame unread = none := by
  unfold names at hwait
  generalize hexchange : exchangeNames ownName half f.link = result at hwait
  match result with
  | (.waiting half', link) =>
    cases hwait
    exact short_of_exchangeThen hlink hhalf hexchange
  | (.finished (.error fault), link) | (.finished (.ok remoteName), link) => cases hwait

/-- A handshake that waits has no frame to go on with. -/
theorem short_of_shake (h : f.Hears taken received heard ended (.handshaking stage))
    (hwait : f.shake ownName stage = (.waiting stage', f')) :
    ∃ unread, Awaits f'.link unread ended ∧ cutFrame unread = none := by
  cases h with
  | @handshaking _ rest _ hlink hstage =>
    cases stage with
    | names half => exact ⟨rest, short_of_names hlink hstage hwait⟩
    | signature half =>
      replace hstage : half ≠ .flushing := hstage
      have hanswers := answers_exchangeThen hlink hstage signature (checkSignature signature)
      rw [shake, exchangeSignature] at hwait
      generalize hexchange : exchangeThen signature (checkSignature signature) half f.link = result
        at hwait hanswers
      cases hanswers with
      | wait =>
        cases hwait
        exact ⟨rest, short_of_exchangeThen hlink hstage hexchange⟩
      | @frame payload rest' l _ hlink' =>
        -- the frame was the signature, and the other half waits
        generalize checkSignature signature (.frame payload) = checked at hwait
        cases checked with
        | error fault => cases hwait
        | ok =>
          exact ⟨rest', short_of_names (f := { f with link := l, validated := true }) hlink'
            offering_ne_flushing hwait⟩
      | @stop reception l _ _ hpayload =>
        rw [checkSignature_of_payload hpayload] at hwait
        cases hwait

/-- A run does not go back to its handshake. -/
theorem pump_ne_handshaking (outbox : Outbox) (sending : SendStage) (receiving : ReceiveStage)
    (f : Flow) (n : Node) :
    (f.pump outbox sending receiving n).1 ≠ .waiting (.handshaking stage) := by
  unfold pump
  split
  case h_1 phase f' requests hconverse =>
    rintro ⟨⟩
    unfold converse at hconverse
    split at hconverse
    case isTrue => cases hconverse
    case isFalse =>
      dsimp only at hconverse
      split at hconverse
      · cases hconverse
      · split at hconverse <;> cases hconverse
  case h_2 result f' requests _ => exact conclude_ne_waiting _ _ fun _ => Phase.noConfusion

theorem activate_ne_handshaking (f : Flow) (n : Node) :
    (f.activate n).1 ≠ .waiting (.handshaking stage) := by
  unfold activate
  dsimp only
  split
  · exact pump_ne_handshaking _ _ _ _ _
  · exact conclude_ne_waiting _ _ fun _ => Phase.noConfusion

/-- A run that goes on and is still in its handshake has no frame to go on with. -/
theorem short_of_pollHandshake (h : f.Hears taken received heard ended (.handshaking stage))
    (hwait : (f.pollHandshake stage n).1 = .waiting (.handshaking stage')) :
    ∃ unread, Awaits (f.pollHandshake stage n).2.1.link unread ended ∧ cutFrame unread = none := by
  unfold pollHandshake at hwait ⊢
  split at hwait
  case isTrue => exact absurd hwait (conclude_ne_waiting _ _ fun _ => Phase.noConfusion)
  case isFalse hopen =>
    rw [if_neg hopen]
    generalize hshake : f.shake n.name stage = result at hwait ⊢
    match result with
    | (.waiting stage'', f') =>
      obtain ⟨unread, hshort⟩ := short_of_shake h hshake
      exact ⟨unread, hshort⟩
    | (.finished (.ok ()), f') => exact absurd hwait (activate_ne_handshaking f' n)
    | (.finished (.error fault), f') =>
      exact absurd hwait (conclude_ne_waiting _ _ fun _ => Phase.noConfusion)

/-- Where everything is accepted, a run that was asked to stop has its result at once. -/
theorem finished_poll (hcancelled : f.cancelled = true)
    (haccepts : f.link.stream.acceptance = .everything) (phase : Phase) (n : Node) :
    ∃ result, (f.poll phase n).1 = .finished result := by
  obtain ⟨f', hconclude, -⟩ := conclude_of_everything haccepts (.ok ())
  cases phase with
  | handshaking stage =>
    rw [poll, pollHandshake, if_pos hcancelled, hconclude]
    exact ⟨_, rfl⟩
  | pumping outbox sending receiving =>
    rw [poll, pump, converse, if_pos hcancelled]
    dsimp only
    rw [hconclude]
    exact ⟨_, rfl⟩
  | closing result =>
    obtain ⟨f'', hclosing⟩ := finishClosing_of_everything haccepts
    rw [poll, hclosing]
    exact ⟨_, rfl⟩

/-- What a visitor sends takes a flow past its handshake. -/
theorem Hears.not_short {guest : String}
    (h : f.Hears false (visit guest) heard ended (.handshaking stage)) (hguest : guest ≠ "")
    (hfits : Fits (Text.Utf8.encode guest)) {unread : Bytes}
    (hlink : Awaits f.link unread ended) : cutFrame unread ≠ none := by
  intro hcut
  cases h with
  | @handshaking _ rest _ hlink' _ _ _ hrest =>
    have hnone := hrest []
    rw [conversation_visit hguest hfits, List.append_nil, hlink'.unread_eq hlink,
      frames_of_short hcut] at hnone
    cases stage <;> exact nomatch congrArg Outcome.name hnone

end Flow

/-! ## Visitors and their runs -/

namespace Peer

variable {name guest : String} {taken : Bool} {received : Bytes}
  {heard : List (String × String)} {ended : Bool} {p : Peer} {n : Node}
  {stage stage' : HandshakeStage}

theorem poll_of_running {phase : Phase} (h : p.presence = .running phase) :
    (p.poll n).1 = p.settle (p.flow.poll phase n).1 (p.flow.poll phase n).2.1 := by
  unfold poll
  rw [h]

theorem short_of_poll (hhears : p.flow.Hears taken received heard ended (.handshaking stage))
    (hpresence : p.presence = .running (.handshaking stage))
    (hwait : (p.poll n).1.presence = .running (.handshaking stage')) :
    ∃ unread, Awaits (p.poll n).1.flow.link unread ended ∧ cutFrame unread = none := by
  have hshort : (p.flow.pollHandshake stage n).1 = .waiting (.handshaking stage') → _ :=
    Flow.short_of_pollHandshake hhears
  rw [poll_of_running hpresence, Flow.poll] at hwait ⊢
  generalize p.flow.pollHandshake stage n = result at hshort hwait ⊢
  obtain ⟨phase | result, flow, requests⟩ := result
  · have hphase : phase = .handshaking stage' := Presence.running.inj hwait
    exact hshort (congrArg _ hphase)
  · obtain hended | hended := presence_afterRun { p with flow } result <;>
      cases hwait.symm.trans hended

/-- A visitor of this name who is past the handshake. -/
structure Entered (guest : String) (p : Peer) : Prop where
  engaged : ∃ heard, p.Engaged false (visit guest) heard false false
  entered : FlowState.active.age ≤ p.flow.state.age

/-- The run of a visitor goes on, and has come to no result. -/
theorem Engaged.exists_hears (h : p.Engaged false (visit guest) heard false false)
    (hguest : guest ≠ "") (hfits : Fits (Text.Utf8.encode guest)) :
    ∃ phase, p.presence = .running phase ∧ p.flow.Hears false (visit guest) heard false phase := by
  cases h with
  | running _ hpresence _ hhears => exact ⟨_, hpresence, hhears⟩
  | settled _ _ hall =>
    exact absurd (fun more => hall more fun hended => nomatch hended)
      (not_forall_conversation_visit hguest hfits _)

/-- It takes lines from its queue and waits for others to send, under the name of the visitor. -/
theorem Entered.exists_pumping (h : p.Entered guest) (hsteady : p.Steady name)
    (hguest : guest ≠ "") (hfits : Fits (Text.Utf8.encode guest)) :
    ∃ outbox receiving rest, p.presence = .running (.pumping outbox .idle receiving) ∧
      Awaits p.flow.link rest false ∧ p.flow.remoteName = some guest := by
  obtain ⟨heard, hengaged⟩ := h.engaged
  obtain ⟨phase, hpresence, hhears⟩ := hengaged.exists_hears hguest hfits
  have hphase := hsteady.suits
  rw [hpresence] at hphase
  cases hhears with
  | handshaking =>
    have hage := h.entered
    rw [hphase.1] at hage
    exact absurd hage (by decide)
  | @pumping outbox receiving rest sender _ hlink hname hrest =>
    have hsame := hrest []
    rw [conversation_visit hguest hfits] at hsame
    exact ⟨outbox, receiving, rest, hpresence, hlink,
      hname.trans (congrArg Outcome.name hsame).symm⟩

/-- A run that was asked to stop has returned when it went on once. -/
theorem poll_ne_running (hcancelled : p.flow.cancelled = true)
    (haccepts : ∀ phase, p.presence = .running phase →
      p.flow.link.stream.acceptance = .everything) (phase : Phase) :
    (p.poll n).1.presence ≠ .running phase := by
  intro hrunning
  by_cases hpresence : ∃ phase, p.presence = .running phase
  · obtain ⟨phase', hpresence⟩ := hpresence
    obtain ⟨result, hfinished⟩ :=
      Flow.finished_poll hcancelled (haccepts phase' hpresence) phase' n
    rw [poll_of_running hpresence, hfinished] at hrunning
    obtain hended | hended :=
      presence_afterRun { p with flow := (p.flow.poll phase' n).2.1 } result <;>
      cases hrunning.symm.trans hended
  · rw [poll_of_ne_running fun phase' hphase => hpresence ⟨phase', hphase⟩] at hrunning
    exact hpresence ⟨phase, hrunning⟩

/-- A peer whose run has returned and given its stream up. -/
structure Released (p : Peer) : Prop where
  presence : p.presence = .idle ∨ p.presence = .gone
  result : p.result.isSome = true
  closed : p.flow.Over

theorem Started.released (h : p.Started) (hreturned : ∀ phase, p.presence ≠ .running phase) :
    p.Released := by
  obtain ⟨phase, hrunning⟩ | ⟨hpresence, hresult, hover⟩ := h
  · exact absurd hrunning (hreturned phase)
  · exact ⟨hpresence, hresult, hover⟩

theorem Released.ne_running (h : p.Released) (phase : Phase) : p.presence ≠ .running phase := by
  intro hrunning
  obtain hpresence | hpresence := h.presence <;> cases hrunning.symm.trans hpresence

end Peer

/-! ## Rounds -/

namespace Session

variable {name guest : String} {s : Session} {p q : Peer} {heard : List (String × String)}

/-- In a round each run goes on once. -/
theorem exists_of_mem_pollPeers (peers : List Peer) (n : Node)
    (hq : q ∈ (pollPeers peers n).1) : ∃ p ∈ peers, ∃ n', n'.name = n.name ∧ q = (p.poll n').1 := by
  induction peers generalizing n with
  | nil => exact nomatch hq
  | cons p peers ih =>
    rw [pollPeers] at hq
    obtain rfl | hq := List.mem_cons.1 hq
    · exact ⟨p, List.mem_cons_self, n, rfl, rfl⟩
    · obtain ⟨p', hp', n', hname, rfl⟩ := ih _ hq
      exact ⟨p', List.mem_cons_of_mem _ hp', n', hname.trans (Node.name_serveAll ..), rfl⟩

theorem exists_of_mem_poll (hq : q ∈ s.poll.peers) :
    ∃ p ∈ s.peers, ∃ n, n.name = s.node.name ∧ q = (p.poll n).1 :=
  exists_of_mem_pollPeers s.peers s.node hq

/-- A step in which a run goes on. -/
def Step.IsPoll (step : Step) : Prop :=
  ∃ peer, step = .poll peer

theorem exists_polls_poll (hs : s.Distinct) :
    ∃ polls, (∀ step ∈ polls, Step.IsPoll step) ∧ s.poll = s.followAll polls := by
  have hpolls : s.followAll (s.peers.map fun p => .poll p.name) = s.poll :=
    followAll_poll hs (List.nil_append s.peers).symm
  refine ⟨_, fun step hstep => ?_, hpolls.symm⟩
  obtain ⟨p, -, rfl⟩ := List.mem_map.1 hstep
  exact ⟨p.name, rfl⟩

theorem exists_polls_settle (hs : s.Distinct) :
    ∃ polls, (∀ step ∈ polls, Step.IsPoll step) ∧ s.settle = s.followAll polls := by
  obtain ⟨first, hfirst, heq⟩ := exists_polls_poll hs
  obtain ⟨second, hsecond, heq'⟩ := exists_polls_poll (heq ▸ distinct_followAll hs first)
  refine ⟨first ++ second, List.forall_mem_append.2 ⟨hfirst, hsecond⟩, ?_⟩
  rw [followAll_append, ← heq, ← heq']
  rfl

theorem exists_polls_act (hs : s.Distinct) (action : Action) :
    ∃ polls, (∀ step ∈ polls, Step.IsPoll step) ∧
      (s.act action).2 = s.followAll (.perform action :: polls) :=
  exists_polls_settle (distinct_follow hs (.perform action))

/-! ## Steps of visits -/

/-- A step in which a run goes on, or which is about another peer. -/
def Step.Spares (peer : String) (step : Step) : Prop :=
  step.IsPoll ∨ step.IsQuiet ∧ step.subject ≠ some peer

/-- A step in which a run goes on, or bytes arrive from this peer. -/
def Step.Feeds (peer : String) (step : Step) : Prop :=
  step.IsPoll ∨ ∃ chunk, step = .perform (.farEnd peer (.arrive chunk))

namespace Step

variable {peer other : String} {step : Step}

theorem Spares.isCalm (h : step.Spares peer) : step.IsCalm peer := by
  obtain ⟨other, rfl⟩ | ⟨hquiet, hsubject⟩ := h
  · exact ⟨isQuiet_poll other, fun hsubject => .inl (Option.some.inj hsubject ▸ rfl)⟩
  · exact ⟨hquiet, fun heq => absurd heq hsubject⟩

theorem Spares.chunk_eq (h : step.Spares peer) : step.chunk peer = [] := by
  obtain ⟨other, rfl⟩ | ⟨-, hsubject⟩ := h
  · rfl
  · exact chunk_of_subject_ne hsubject

theorem Spares.ends_eq (h : step.Spares peer) : step.ends peer = false := by
  obtain ⟨other, rfl⟩ | ⟨-, hsubject⟩ := h
  · rfl
  · exact ends_of_subject_ne hsubject

theorem Spares.not_opens (h : step.Spares peer) : ¬ step.Opens peer := by
  obtain ⟨other, rfl⟩ | ⟨-, hsubject⟩ := h
  · rintro (heq | heq) <;> cases heq
  · rintro (rfl | rfl) <;> exact hsubject rfl

theorem Spares.ne_abandon (h : step.Spares peer) : step ≠ .abandon peer := by
  obtain ⟨other, rfl⟩ | ⟨-, hsubject⟩ := h
  · exact Step.noConfusion
  · rintro rfl
    exact hsubject rfl

theorem Feeds.isQuiet (h : step.Feeds peer) : step.IsQuiet := by
  obtain ⟨other, rfl⟩ | ⟨chunk, rfl⟩ := h
  · exact isQuiet_poll other
  · exact (isCalm_arrive peer chunk).1

theorem Feeds.isCalm (h : step.Feeds peer) : step.IsCalm peer := by
  obtain hpoll | ⟨chunk, rfl⟩ := h
  · exact Spares.isCalm (.inl hpoll)
  · exact isCalm_arrive peer chunk

theorem Feeds.spares (h : step.Feeds peer) (hne : peer ≠ other) : step.Spares other := by
  obtain hpoll | ⟨chunk, rfl⟩ := h
  · exact .inl hpoll
  · exact .inr ⟨(isCalm_arrive peer chunk).1, fun hsubject => hne (Option.some.inj hsubject)⟩

theorem Feeds.ends_eq (h : step.Feeds peer) : step.ends other = false := by
  obtain ⟨other, rfl⟩ | ⟨chunk, rfl⟩ := h <;> rfl

theorem Feeds.attempts_eq (h : step.Feeds peer) : step.attempts other = 0 := by
  obtain ⟨other, rfl⟩ | ⟨chunk, rfl⟩ := h <;> rfl

theorem Feeds.not_opens (h : step.Feeds peer) : ¬ step.Opens other := by
  obtain ⟨other, rfl⟩ | ⟨chunk, rfl⟩ := h <;> rintro (heq | heq) <;> cases heq

theorem Feeds.ne_abandon (h : step.Feeds peer) : step ≠ .abandon other := by
  obtain ⟨other, rfl⟩ | ⟨chunk, rfl⟩ := h <;> exact Step.noConfusion

theorem Feeds.subject_ne_none (h : step.Feeds peer) : step.subject ≠ none := by
  obtain ⟨other, rfl⟩ | ⟨chunk, rfl⟩ := h <;> exact Option.some_ne_none _

end Step

variable {steps : List Step} {peer : String} {bytes : Bytes}

theorem inOrder_of_ends_eq (h : ∀ step ∈ steps, step.ends peer = false) : InOrder peer steps :=
  List.pairwise_of_forall_mem_list fun first hfirst _ _ hends =>
    nomatch hends.symm.trans (h first hfirst)

theorem any_ends_eq_false (h : ∀ step ∈ steps, step.ends peer = false) :
    steps.any (Step.ends peer) = false :=
  List.any_eq_false.2 fun step hstep => by rw [h step hstep]; decide

theorem received_eq_nil_of_spares (h : ∀ step ∈ steps, step.Spares peer) :
    received peer steps = [] :=
  List.flatMap_eq_nil_iff.2 fun step hstep => (h step hstep).chunk_eq

theorem attempts_eq_zero (h : ∀ step ∈ steps, step.attempts peer = 0) :
    attempts peer steps = 0 := by
  induction steps with
  | nil => rfl
  | cons step steps ih =>
    obtain ⟨hstep, hsteps⟩ := List.forall_mem_cons.1 h
    rw [attempts, hstep, ih hsteps]

/-- A run goes on as before where nothing arrives for it, and its flow does not go back. -/
theorem exists_engaged_of_spares (hs : s.Undisturbed False) (hsteady : s.Steady name)
    (hp : p ∈ s.peers) (h : p.Engaged false bytes heard false false)
    (hspares : ∀ step ∈ steps, step.Spares p.name) :
    ∃ q ∈ (s.followAll steps).peers, q.name = p.name ∧
      (∃ heard, q.Engaged false bytes heard false false) ∧
      p.flow.state.age ≤ q.flow.state.age := by
  obtain ⟨q, hq, hname, hengaged⟩ := engaged_followAll hs hp rfl h
    (fun step hstep => (hspares step hstep).isCalm)
    (grants_of_undisturbed hs fun step hstep => (hspares step hstep).isCalm.1)
    (fun hended => nomatch hended)
    (inOrder_of_ends_eq fun step hstep => (hspares step hstep).ends_eq)
  rw [received_eq_nil_of_spares hspares, List.append_nil,
    any_ends_eq_false fun step hstep => (hspares step hstep).ends_eq] at hengaged
  obtain ⟨q', hq', hname', hendures⟩ :=
    exists_endures hsteady hp steps fun step hstep => (hspares step hstep).not_opens
  obtain rfl :=
    eq_of_name_eq (distinct_followAll hs.distinct steps) hq' hq (hname'.trans hname.symm)
  exact ⟨q', hq, hname, ⟨_, hengaged⟩, hendures.age_le⟩

/-- Who is past the handshake stays there. -/
theorem exists_entered_of_spares (hs : s.Undisturbed False) (hsteady : s.Steady name)
    (hp : p ∈ s.peers) (h : p.Entered guest) (hspares : ∀ step ∈ steps, step.Spares p.name) :
    ∃ q ∈ (s.followAll steps).peers, q.name = p.name ∧ q.Entered guest := by
  obtain ⟨heard, hengaged⟩ := h.engaged
  obtain ⟨q, hq, hname, hengaged', hage⟩ :=
    exists_engaged_of_spares hs hsteady hp hengaged hspares
  exact ⟨q, hq, hname, hengaged', Nat.le_trans h.entered hage⟩

/-- A round takes a visitor past the handshake. -/
theorem exists_entered_poll (hs : s.Undisturbed False) (hsteady : s.Steady name) (hp : p ∈ s.peers)
    (h : p.Engaged false (visit guest) heard false false) (hguest : guest ≠ "")
    (hfits : Wire.Fits (Text.Utf8.encode guest)) :
    ∃ q ∈ s.poll.peers, q.name = p.name ∧ q.Entered guest := by
  obtain ⟨polls, hpolls, heq⟩ := exists_polls_poll hs.distinct
  obtain ⟨q, hq, hname, ⟨heard', hengaged⟩, hage⟩ :=
    exists_engaged_of_spares hs hsteady hp h fun step hstep => .inl (hpolls step hstep)
  have hsteady' := steady_followAll hsteady polls
  rw [← heq] at hq hsteady'
  refine ⟨q, hq, hname, ⟨heard', hengaged⟩, ?_⟩
  obtain ⟨phase, hpresence, hhears⟩ := h.exists_hears hguest hfits
  obtain ⟨phase', hpresence', hhears'⟩ := hengaged.exists_hears hguest hfits
  have hphase := (hsteady.peers p hp).suits
  have hphase' := (hsteady'.peers q hq).suits
  rw [hpresence] at hphase
  rw [hpresence'] at hphase'
  cases phase with
  | closing => cases hhears
  | pumping => exact hphase.1 ▸ hage
  | handshaking stage =>
    cases phase' with
    | closing => cases hhears'
    | pumping => exact hphase'.1 ▸ Nat.le_refl _
    | handshaking stage' =>
      -- a handshake that still waits had no frame, but what the visitor sent is enough
      obtain ⟨r, hr, n, -, rfl⟩ := exists_of_mem_poll hq
      obtain rfl := eq_of_name_eq hs.distinct hr hp ((name_poll r n).symm.trans hname)
      obtain ⟨unread, hlink, hcut⟩ := Peer.short_of_poll hhears hpresence hpresence'
      exact absurd hcut (hhears'.not_short hguest hfits hlink)

end Session

end Parley.Chat
