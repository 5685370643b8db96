import Parley.Proofs.Chat.Life

/-!
# Stopping

All flows of a session can be asked to stop. A run that is asked stops taking and sending
lines at once, wherever it stands, but before it returns it writes what is queued, and for
that it waits as long as the far end accepts nothing. So when nothing is left to do, each
run has returned and given its link up, or its far end blocks the last bytes.

- `Link.Blocked`: a link whose last bytes are not accepted.
- `Flow.blocked_of_poll`: only such a link keeps a run that was asked to stop.
- `Peer.Started`: a run that was begun, and not given up where it stood. It goes on, or has its
  result (`Session.Turn.started`).
- `Session.returned_or_blocked`: what becomes of the runs of a session that stops.
- `Session.exists_blocked_run`: a run that does not return.
-/

namespace Parley.Wire

/-- Only a far end that blocks makes a write wait. -/
theorem Stream.Refusal.eq_block_of_result {refusal : Wire.Refusal}
    (h : result refusal = .waiting) : refusal = .block := by
  cases refusal with
  | block => rfl
  | fail | ignore => cases h

namespace Link

/-- A link with bytes to write, of which the far end accepts none. -/
structure Blocked (l : Link) : Prop where
  queued : l.writer.queue ≠ []
  acceptance : l.stream.acceptance = .upTo 0 .block

/-- Where a shutdown changes nothing, the link is blocked. -/
theorem blocked_of_shutdown {l : Link} (h : l.shutdown = (.waiting, l)) : l.Blocked := by
  have hwrite : l.stream.write l.writer.queue = (.waiting, l.writer.queue, l.stream) := by
    unfold shutdown Writer.shutdown Writer.flush at h
    rcases hwrite : l.stream.write l.writer.queue with ⟨_ | _ | _, queue, stream⟩
    · rw [hwrite] at h
      have hqueue : queue = l.writer.queue := congrArg (fun result => result.2.writer.queue) h
      have hstream : stream = l.stream := congrArg (fun result => result.2.stream) h
      rw [hqueue, hstream]
    · rw [hwrite] at h
      cases congrArg Prod.fst h
    · rw [hwrite] at h
      cases congrArg Prod.fst h
  unfold Stream.write at hwrite
  split at hwrite
  case h_1 => cases congrArg Prod.fst hwrite
  case h_2 count refusal hacceptance =>
    split at hwrite
    case isTrue => cases congrArg Prod.fst hwrite
    case isFalse hlong =>
      -- After a write that was refused no more bytes are accepted; here nothing has changed.
      have hstream : Acceptance.upTo 0 refusal = l.stream.acceptance :=
        congrArg (fun result => result.2.2.acceptance) hwrite
      have hrefusal := Stream.Refusal.eq_block_of_result (congrArg Prod.fst hwrite)
      refine ⟨fun hempty => hlong ?_, ?_⟩
      · rw [hempty]
        exact Nat.zero_le count
      · rw [← hstream, hrefusal]

end Link

end Parley.Wire

namespace Parley.Chat

open Wire

/-! ## Runs that were asked to stop -/

namespace Flow

variable {f : Flow} {phase : Phase} {n : Node}

theorem conclude_ne_waiting (result : FlowResult) (f : Flow)
    (h : ∀ result, phase ≠ .closing result) : (f.conclude result).1 ≠ .waiting phase := by
  intro hwaiting
  obtain ⟨f', -, hconclude | hconclude⟩ := f.conclude_cases result
  · rw [hconclude] at hwaiting
    exact h result (RunProgress.waiting.inj hwaiting).symm
  · rw [hconclude] at hwaiting
    exact nomatch hwaiting

/-- A run that was asked to stop waits for nothing but its last bytes to be accepted. -/
theorem blocked_of_poll (hcancelled : f.cancelled = true) (hsuits : phase.Suits f)
    (hpoll : (f.poll phase n).1 = .waiting phase) (hsame : (f.poll phase n).2.1 = f) :
    ∃ result, phase = .closing result ∧ f.Parting ∧ f.link.Blocked := by
  cases phase with
  | handshaking stage =>
    rw [poll, pollHandshake, if_pos hcancelled] at hpoll
    exact absurd hpoll (conclude_ne_waiting _ f fun _ => Phase.noConfusion)
  | pumping outbox sending receiving =>
    rw [poll, pump, converse, if_pos hcancelled] at hpoll
    exact absurd hpoll (conclude_ne_waiting _ f fun _ => Phase.noConfusion)
  | closing result =>
    refine ⟨result, rfl, hsuits, Link.blocked_of_shutdown ?_⟩
    rw [poll, finishClosing, if_pos hsuits.holding] at hpoll hsame
    generalize f.link.shutdown = closing at hpoll hsame ⊢
    obtain ⟨_ | _, link⟩ := closing
    · exact Prod.ext rfl (congrArg Flow.link hsame)
    · cases hpoll

end Flow

namespace Peer

variable {name : String} {halted : Bool} {p : Peer} {phase : Phase} {n : Node}

/-- A run that does not get any further waits where it stands. -/
theorem poll_eq_of_still (hpresence : p.presence = .running phase) (hstill : (p.poll n).1 = p) :
    (p.flow.poll phase n).1 = .waiting phase ∧ (p.flow.poll phase n).2.1 = p.flow := by
  unfold poll at hstill
  rw [hpresence] at hstill
  dsimp only at hstill
  generalize p.flow.poll phase n = result at hstill ⊢
  obtain ⟨phase' | result, flow, requests⟩ := result
  · have hphase : Presence.running phase' = .running phase :=
      (congrArg Peer.presence hstill).trans hpresence
    exact ⟨congrArg Flow.RunProgress.waiting (Presence.running.inj hphase),
      congrArg Peer.flow hstill⟩
  · have hpresence' : (afterRun { p with flow } result).presence = .running phase :=
      (congrArg Peer.presence hstill).trans hpresence
    obtain h | h := presence_afterRun { p with flow } result <;>
      cases h.symm.trans hpresence'

/-! ## Runs that were begun -/

/-- A peer whose flow was run: the run goes on, or has its result and has given the link
up. -/
def Started (p : Peer) : Prop :=
  (∃ phase, p.presence = .running phase) ∨
    (p.presence = .idle ∨ p.presence = .gone) ∧ p.result.isSome = true ∧ p.flow.Over

/-- A flow that was run and does not run any more has ended for good. -/
theorem Started.over (h : p.Started) (hpresence : ∀ phase, p.presence ≠ .running phase) :
    p.flow.Over := by
  obtain ⟨phase, hphase⟩ | ⟨-, -, hended⟩ := h
  · exact absurd hphase (hpresence phase)
  · exact hended

theorem Started.over_of_idle (h : p.Started) (hidle : p.presence = .idle) : p.flow.Over :=
  h.over fun _ hphase => nomatch hidle.symm.trans hphase

theorem Started.ne_connected (h : p.Started) : p.presence ≠ .connected := by
  rintro hconnected
  obtain ⟨phase, hphase⟩ | ⟨hidle | hgone, -⟩ := h
  · cases hconnected.symm.trans hphase
  · cases hconnected.symm.trans hidle
  · cases hconnected.symm.trans hgone

/-- A run stays begun while what has ended for good stays so. -/
theorem Started.of_over {flow : Flow} (h : p.Started) (hover : p.flow.Over → flow.Over) :
    Started { p with flow } := by
  obtain hrunning | ⟨hpresence, hresult, hended⟩ := h
  · exact .inl hrunning
  · exact .inr ⟨hpresence, hresult, hover hended⟩

/-- The same when the flow does something. -/
theorem Started.of_does {flow : Flow} (h : p.Started)
    (hdoes : Flow.Does name halted p.flow flow) : Started { p with flow } :=
  h.of_over hdoes.over

theorem started_afterRun {flow : Flow} (hover : flow.Over) (result : FlowResult) :
    (afterRun { p with flow } result).Started := by
  unfold afterRun
  split
  · exact .inr ⟨.inl rfl, rfl, hover⟩
  · exact .inr ⟨.inr rfl, rfl, flow.over_drop⟩

/-- A run that got somewhere was begun. -/
theorem started_settle {progress : Flow.RunProgress} {flow : Flow} (h : progress.Suits flow) :
    (p.settle progress flow).Started := by
  cases progress with
  | waiting phase => exact .inl ⟨phase, rfl⟩
  | finished result => exact started_afterRun h result

/-- A run of a fresh flow was begun. -/
theorem Steady.started_run (h : p.Steady name) (hname : n.name = name) (id : FlowId)
    (hfree : p.presence = .idle ∨ p.presence = .connected) (hcreated : p.flow.state = .created) :
    (p.run id halted n).1.Started := by
  have hnamed := named_of_sound h.sound
  rcases hfree with hidle | hconnected
  · have hgoes : Flow.Goes name halted p.flow (p.flow.start n) :=
      Flow.goes_start n hname hcreated hnamed
    rw [run_of_idle hidle]
    exact started_settle hgoes.suits
  · have hopen : p.flow.isDisposed = false := by
      simpa using h.sound.not_disposed (by rw [hcreated]; decide)
    have hgoes : Flow.Goes name halted { p.flow with id, cancelled := halted }
        (Flow.start { p.flow with id, cancelled := halted } n) :=
      Flow.goes_start n hname hcreated hnamed
    rw [run_of_connected hconnected hopen]
    exact started_settle hgoes.suits

/-- A run that goes on was begun. -/
theorem Steady.started_poll (h : p.Steady name) (hname : n.name = name) (hstarted : p.Started) :
    (p.poll n).1.Started := by
  have hsuits := h.suits
  unfold poll
  split
  case h_1 phase hpresence =>
    rw [hpresence] at hsuits
    have hgoes : Flow.Goes name false p.flow (p.flow.poll phase n) := Flow.goes_poll n hname hsuits
    exact started_settle hgoes.suits
  case h_2 => exact hstarted

/-- A flow that was run is not run again. -/
theorem Started.run (hstarted : p.Started) (id : FlowId) (halted : Bool) (n : Node) :
    (p.run id halted n).1.Started := by
  by_cases hidle : p.presence = .idle
  case pos =>
    have hover := hstarted.over_of_idle hidle
    have hstate : p.flow.state ≠ .created := hover.state ▸ FlowState.noConfusion
    rw [run_of_idle hidle, start, Flow.start_of_ne_created n hstate]
    exact started_afterRun hover _
  case neg =>
    rw [run_of_busy hidle hstarted.ne_connected]
    exact hstarted

theorem Started.runOnce (hstarted : p.Started) (hidle : p.presence = .idle) (n : Node) :
    (p.runOnce n).2.1.Started := by
  have hover := hstarted.over_of_idle hidle
  have hstate : p.flow.state ≠ .created := hover.state ▸ FlowState.noConfusion
  rw [Peer.runOnce, Flow.start_of_ne_created n hstate]
  exact hstarted

end Peer

/-! ## Sessions that stop -/

namespace Session

variable {name peer : String} {s : Session} {p p' : Peer} {step : Step} {requests : List Request}
  {next : FlowId}

/-- A run that was begun goes on until it has its result, unless it is given up where it
stands. -/
theorem Turn.started (hturn : Turn s p step p' requests next) (hname : s.node.name = name)
    (h : p.Steady name) (hkept : step ≠ .abandon p.name) (hstarted : p.Started) : p'.Started := by
  cases hturn with
  | poll => exact h.started_poll hname hstarted
  | abandon => exact absurd rfl hkept
  | run => exact hstarted.run ..
  | runOnce hidle => exact hstarted.runOnce hidle s.node
  | farEnd event =>
    exact hstarted.of_over fun hended => ⟨hended.state, hended.cancelled, hended.holding⟩
  | handshake =>
    have hdoes : Flow.Does name false p.flow (p.flow.handshake s.node.name).2 :=
      hname ▸ Flow.does_handshake (Peer.named_of_sound h.sound)
    exact hstarted.of_does hdoes
  | closeFlow =>
    have hdoes : Flow.Does name false p.flow p.flow.close.2 := p.flow.does_close
    exact hstarted.of_does hdoes
  | requestClose =>
    have hdoes : Flow.Does name false p.flow p.flow.requestClose := p.flow.does_requestClose
    exact hstarted.of_does hdoes
  | dropFlow hfree =>
    obtain ⟨phase, hphase⟩ | ⟨-, hresult, -⟩ := hstarted
    · rcases hfree with hfree | hfree <;> cases hfree.symm.trans hphase
    · exact .inr ⟨.inr rfl, hresult, p.flow.over_drop⟩
  | disposeConnection hconnected => exact absurd hconnected hstarted.ne_connected

/-- The run of a peer goes on until it has its result. -/
theorem exists_started (h : s.Steady name) (hp : p ∈ s.peers) (hstarted : p.Started)
    (steps : List Step) (hopens : ∀ step ∈ steps, ¬ step.Opens p.name)
    (hkept : ∀ step ∈ steps, step ≠ .abandon p.name) :
    ∃ q ∈ (s.followAll steps).peers, q.name = p.name ∧ q.Started := by
  induction steps generalizing s p with
  | nil => exact ⟨p, hp, rfl, hstarted⟩
  | cons step steps ih =>
    obtain ⟨hopen, hopens⟩ := List.forall_mem_cons.1 hopens
    obtain ⟨hkeep, hkept⟩ := List.forall_mem_cons.1 hkept
    obtain ⟨p', hp', hname⟩ := exists_mem_follow hp step
    have hstarted' : p'.Started := by
      cases became_of_mem_follow hp' with
      | same hmem => rwa [eq_of_name_eq h.distinct hmem hp hname]
      | turn hmem hturn =>
        obtain rfl := eq_of_name_eq h.distinct hmem hp (hturn.name_eq.symm.trans hname)
        exact hturn.started h.named (h.peers _ hp) hkeep hstarted
      | opened hopened => exact absurd (hname ▸ hopened) hopen
      | cancelled hmem heq =>
        subst heq
        obtain rfl := eq_of_name_eq h.distinct hmem hp hname
        exact hstarted.of_over fun hended => ⟨hended.state, rfl, hended.holding⟩
    rw [← hname] at hopens hkept
    obtain ⟨q, hq, hqname, hq'⟩ := ih (steady_follow h step) hp' hstarted' hopens hkept
    exact ⟨q, hq, hqname.trans hname, hq'⟩

/-- The run of a fresh flow begins. -/
theorem exists_started_of_run (h : s.Steady name) (hp : p ∈ s.peers)
    (hfree : p.presence = .idle ∨ p.presence = .connected) (hcreated : p.flow.state = .created) :
    ∃ q ∈ (s.follow (.perform (.run p.name))).peers, q.name = p.name ∧ q.Started := by
  have hstarted : (p.run s.nextFlow s.cancelled s.node).1.Started :=
    (h.peers p hp).started_run h.named s.nextFlow hfree hcreated
  rw [follow_run h.distinct hp]
  exact ⟨_, mem_setPeer_self, name_run .., hstarted⟩

/-- **Stopping.** A flow is run, and other things are done before and after that, until all flows
were asked to stop and the run cannot go on; other runs may be given up, but not this one. Then
it has returned, and the flow has given its link up; or it is closing with bytes in its queue of
which the far end accepts none. -/
theorem returned_or_blocked (n : Node) {before after : List Step}
    (hp : ((ofNode n).followAll before).peer? peer = some p)
    (hfree : p.presence = .idle ∨ p.presence = .connected) (hcreated : p.flow.state = .created)
    (hopens : ∀ step ∈ after, ¬ step.Opens peer)
    (hkept : ∀ step ∈ after, step ≠ .abandon peer)
    (hcancelled :
      ((ofNode n).followAll (before ++ .perform (.run peer) :: after)).cancelled = true)
    (hrests : ((ofNode n).followAll (before ++ .perform (.run peer) :: after)).Rests peer) :
    ∃ q, ((ofNode n).followAll (before ++ .perform (.run peer) :: after)).peer? peer = some q ∧
      q.flow.state = .closed ∧
      ((q.presence = .idle ∨ q.presence = .gone) ∧ q.result.isSome = true ∧
          q.flow.holding = .nothing ∨
        (∃ result, q.presence = .running (.closing result)) ∧ q.flow.holding = .writer ∧
          q.flow.link.Blocked) := by
  rw [followAll_append, followAll_cons] at hcancelled hrests ⊢
  have hs := steady_followAll (steady_ofNode n) before
  generalize (ofNode n).followAll before = s at hp hcancelled hrests hs ⊢
  obtain ⟨hmem, rfl⟩ := mem_of_peer? hp
  obtain ⟨p₁, hp₁, hname₁, hstarted₁⟩ := exists_started_of_run hs hmem hfree hcreated
  have hs₁ := steady_follow hs (.perform (.run p.name))
  rw [← hname₁] at hopens hkept
  obtain ⟨q, hq, hname, hstarted⟩ := exists_started hs₁ hp₁ hstarted₁ after hopens hkept
  have hs₂ := steady_followAll hs₁ after
  replace hname := hname.trans hname₁
  generalize (s.follow (.perform (.run p.name))).followAll after = t
    at hcancelled hrests hq hs₂ ⊢
  rw [← hname] at hrests ⊢
  refine ⟨q, peer?_of_mem hs₂.distinct hq, ?_⟩
  obtain ⟨phase, hphase⟩ | ⟨hpresence, hresult, hended⟩ := hstarted
  case inr => exact ⟨hended.state, .inl ⟨hpresence, hresult, hended.holding⟩⟩
  case inl =>
    have hsuits := (hs₂.peers q hq).suits
    rw [hphase] at hsuits
    obtain ⟨hstill, -⟩ := hrests.poll_eq hs₂.distinct hq
    obtain ⟨hwaiting, hsame⟩ := Peer.poll_eq_of_still hphase hstill
    obtain ⟨result, rfl, hparting, hblocked⟩ :=
      Flow.blocked_of_poll (hs₂.stops q hq hcancelled) hsuits hwaiting hsame
    exact ⟨hparting.state, .inr ⟨⟨result, hphase⟩, hparting.holding, hblocked⟩⟩

/-- What is done with a server before its only flow is run. -/
def greetedSteps : List Step :=
  [.perform (.openFlow "a"),
    .perform (.farEnd "a" (.arrive (frameOf signature ++ frameOf (Text.Utf8.encode "a"))))]

/-- A line is passed on to a flow whose far end accepts so much, and all flows are asked to
stop. -/
def stoppingSteps (acceptance : Acceptance) : List Step :=
  [.perform (.farEnd "a" (.accept acceptance)), .perform (.broadcast "hello"), .poll "a",
    .perform .cancel, .poll "a"]

/-- The session in which this is done. -/
def stoppingSession (acceptance : Acceptance) : Session :=
  (ofNode (.newServer "hub" .stamp 0 .morning)).followAll
    (greetedSteps ++ .perform (.run "a") :: stoppingSteps acceptance)

theorem not_opens_of_stopping (acceptance : Acceptance) :
    ∀ step ∈ stoppingSteps acceptance, ¬ step.Opens "a" := by
  rintro step hstep (rfl | rfl) <;> simp [stoppingSteps] at hstep

theorem ne_abandon_of_stopping (acceptance : Acceptance) :
    ∀ step ∈ stoppingSteps acceptance, step ≠ .abandon "a" := by
  rintro step hstep rfl
  simp [stoppingSteps] at hstep

/-- Where everything is accepted, the run returns. -/
theorem exists_returned_stopping :
    ∃ q, (stoppingSession .everything).peer? "a" = some q ∧
      (q.presence = .idle ∨ q.presence = .gone) ∧ q.result.isSome = true ∧
      q.flow.holding = .nothing := by
  have hnot := not_opens_of_stopping .everything
  have hcancelled : (stoppingSession .everything).cancelled = true := rfl
  have hrests : (stoppingSession .everything).Rests "a" := rfl
  obtain ⟨q, hq, -, hreturned | ⟨-, -, hblocked⟩⟩ :=
    returned_or_blocked (.newServer "hub" .stamp 0 .morning) rfl (.inl rfl) rfl hnot
      (ne_abandon_of_stopping .everything) hcancelled hrests
  · exact ⟨q, hq, hreturned⟩
  · have haccepts : ((stoppingSession .everything).peer? "a").map
        (fun p => p.flow.link.stream.acceptance) = some .everything := rfl
    rw [stoppingSession, hq] at haccepts
    exact nomatch hblocked.acceptance.symm.trans (Option.some.inj haccepts)

/-- A far end that blocks the last line keeps the run from returning, though all flows were
asked to stop and nothing is left to do. -/
theorem exists_blocked_run :
    (stoppingSession (.upTo 0 .block)).cancelled = true ∧
      ∃ p, (stoppingSession (.upTo 0 .block)).peers = [p] ∧
        (stoppingSession (.upTo 0 .block)).Rests p.name ∧
        p.presence = .running (.closing (.ok ())) ∧ p.result = none ∧
        p.flow.holding = .writer :=
  ⟨rfl, _, rfl, rfl, rfl, rfl, rfl⟩

end Session

end Parley.Chat
