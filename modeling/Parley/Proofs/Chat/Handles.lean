import Parley.Proofs.Chat.Stopping

/-!
# Handles

A flow is asked to stop through its handle. One that was never run is closed at once; the run of
another one is to close it. So when the run cannot go on any more, the flow is closed, unless its
run was given up in the middle: nobody is left then to close it, and it stays as it was for as
long as nobody closes or drops the flow itself.

- `Flow.Asked`: a flow that was asked to stop. It stays so (`Flow.Lives.asked`).
- `Peer.Stranded`: a peer whose run was given up in the middle.
- `Session.Step.GivesUp`, `Session.whole_followAll`: no peer is stranded whose runs are never
  given up.
- `Session.closed_or_stranded`: what becomes of a flow that was asked to stop.
- `Session.exists_open_requested`: a flow that stays open.
-/

namespace Parley.Chat

open Wire

/-! ## Flows that were asked to stop -/

namespace Flow

/-- A flow that was asked to stop through its handle. -/
structure Asked (f : Flow) : Prop where
  cancelled : f.cancelled = true
  started : f.state ≠ .created

variable {name : String} {halted : Bool} {chunk : Bytes} {f f' : Flow}

theorem asked_requestClose (f : Flow) : f.requestClose.Asked := by
  refine ⟨rfl, ?_⟩
  show (if f.state = .created then FlowState.closed else f.state) ≠ .created
  split
  case isTrue => exact FlowState.noConfusion
  case isFalse hstate => exact hstate

theorem Deed.asked (hdeed : Deed name halted f f') (h : f.Asked) : f'.Asked := by
  cases hdeed with
  | number _ hstate | begin hstate => exact absurd hstate h.started
  | offerSignature | offerName | read | validate | introduce | sendLines | flush | release =>
    exact ⟨h.cancelled, h.started⟩
  | activate => exact ⟨h.cancelled, FlowState.noConfusion⟩
  | cancel => exact ⟨rfl, h.started⟩
  | close => exact ⟨rfl, FlowState.noConfusion⟩

theorem Does.asked (hdoes : Does name halted f f') (h : f.Asked) : f'.Asked := by
  induction hdoes with
  | refl => exact h
  | tail _ hdeed ih => exact hdeed.asked ih

theorem Lives.asked (hlives : f.Lives name halted chunk f') (h : f.Asked) : f'.Asked := by
  cases hlives with
  | does hdoes => exact hdoes.asked h
  | happens event => exact ⟨h.cancelled, h.started⟩

theorem state_handshake (name : String) (f : Flow) : (f.handshake name).2.state = f.state := by
  have hsame := sameLife_beginHandshake name f
  unfold handshake
  generalize f.beginHandshake name = result at hsame ⊢
  obtain ⟨_ | _, f'⟩ := result <;> exact hsame.state

theorem state_close (f : Flow) : f.close.2.state = .closed :=
  f.ends_beginClosing.state

end Flow

/-! ## Flows in the middle -/

namespace Peer

/-- A flow whose run was given up in the middle: it was begun, nothing runs it any more, and it
is not closed. -/
structure Stranded (p : Peer) : Prop where
  idle : p.presence = .idle
  started : p.flow.state ≠ .created
  notClosed : p.flow.state ≠ .closed

variable {name : String} {p : Peer} {n : Node}

/-- Only a flow that is idle is stranded. -/
theorem not_stranded_of_ne (h : p.presence ≠ .idle) : ¬ p.Stranded :=
  fun hstranded => h hstranded.idle

theorem not_stranded_of_closed (h : p.flow.state = .closed) : ¬ p.Stranded :=
  fun hstranded => hstranded.notClosed h

theorem not_stranded_afterRun {result : FlowResult} (h : ¬ p.Stranded)
    (hidle : p.presence = .idle ∨ p.handled = false) : ¬ (p.afterRun result).Stranded := by
  unfold afterRun
  split
  case isTrue hhandled =>
    have hpresence := hidle.resolve_right fun hunhandled => nomatch hhandled.symm.trans hunhandled
    exact fun hstranded => h ⟨hpresence, hstranded.started, hstranded.notClosed⟩
  case isFalse => exact not_stranded_of_ne Presence.noConfusion

/-- A run that goes on or ends does not leave its flow in the middle. -/
theorem not_stranded_settle {progress : Flow.RunProgress} {flow : Flow} (h : progress.Suits flow) :
    ¬ (p.settle progress flow).Stranded := by
  cases progress with
  | waiting phase => exact not_stranded_of_ne Presence.noConfusion
  | finished result =>
    show ¬ (afterRun { p with flow } result).Stranded
    unfold afterRun
    split
    · exact not_stranded_of_closed h.state
    · exact not_stranded_of_ne Presence.noConfusion

theorem Steady.not_stranded_poll (h : p.Steady name) (hname : n.name = name)
    (hp : ¬ p.Stranded) : ¬ (p.poll n).1.Stranded := by
  have hsuits := h.suits
  unfold poll
  split
  case h_2 => exact hp
  case h_1 phase hpresence =>
    rw [hpresence] at hsuits
    have hgoes : Flow.Goes name false p.flow (p.flow.poll phase n) := Flow.goes_poll n hname hsuits
    exact not_stranded_settle hgoes.suits

theorem Steady.not_stranded_run (h : p.Steady name) (hname : n.name = name) (hp : ¬ p.Stranded)
    (id : FlowId) (cancelled : Bool) : ¬ (p.run id cancelled n).1.Stranded := by
  have hsuits := h.suits
  have hnamed := named_of_sound h.sound
  cases hpresence : p.presence with
  | idle =>
    rw [run_of_idle hpresence, start]
    by_cases hcreated : p.flow.state = .created
    · have hgoes : Flow.Goes name cancelled p.flow (p.flow.start n) :=
        Flow.goes_start n hname hcreated hnamed
      exact not_stranded_settle hgoes.suits
    · rw [Flow.start_of_ne_created n hcreated]
      exact not_stranded_afterRun hp (.inl hpresence)
  | connected =>
    rw [hpresence] at hsuits
    cases hdisposed : p.flow.isDisposed with
    | true =>
      rw [run_of_disposed hpresence hdisposed]
      exact not_stranded_afterRun hp (.inr hsuits.1)
    | false =>
      have hgoes : Flow.Goes name cancelled { p.flow with id, cancelled } _ :=
        Flow.goes_start n hname (h.created_of_connected hpresence hdisposed) hnamed
      rw [run_of_connected hpresence hdisposed]
      exact not_stranded_settle hgoes.suits
  | running | gone =>
    rw [run_of_busy (by rw [hpresence]; exact Presence.noConfusion)
      (by rw [hpresence]; exact Presence.noConfusion)]
    exact hp

end Peer

namespace Session

namespace Step

/-- Whether a run of a peer is given up, where it stands or as soon as it has to wait. -/
def GivesUp (peer : String) (step : Step) : Prop :=
  step = .abandon peer ∨ step = .perform (.runOnce peer)

/-- Whether the flow of a peer is closed or dropped by its owner. -/
def Releases (peer : String) (step : Step) : Prop :=
  step = .perform (.closeFlow peer) ∨ step = .perform (.dropFlow peer)

end Step

variable {name peer : String} {s : Session} {p p' q : Peer} {step : Step}
  {requests : List Request} {next : FlowId}

/-- No turn leaves a flow in the middle, but for a run that is given up. -/
theorem Turn.not_stranded (hturn : Turn s p step p' requests next) (hname : s.node.name = name)
    (h : p.Steady name) (hgives : ¬ step.GivesUp p.name) (hp : ¬ p.Stranded) :
    ¬ p'.Stranded := by
  cases hturn with
  | poll => exact h.not_stranded_poll hname hp
  | abandon => exact absurd (.inl rfl) hgives
  | run => exact h.not_stranded_run hname hp s.nextFlow s.cancelled
  | runOnce => exact absurd (.inr rfl) hgives
  | farEnd =>
    rintro ⟨hidle, hstarted, hopen⟩
    exact hp ⟨hidle, hstarted, hopen⟩
  | handshake =>
    -- a handshake outside of a run leaves the state alone
    rintro ⟨hidle, hstarted, hopen⟩
    rw [Flow.state_handshake] at hstarted hopen
    exact hp ⟨hidle, hstarted, hopen⟩
  | closeFlow => exact Peer.not_stranded_of_closed p.flow.state_close
  | requestClose =>
    -- only a flow that was never begun is closed by this
    by_cases hcreated : p.flow.state = .created
    · exact Peer.not_stranded_of_closed (if_pos hcreated)
    · rintro ⟨hidle, -, hopen⟩
      refine hp ⟨hidle, hcreated, fun hclosed => hopen ?_⟩
      exact (if_neg hcreated).trans hclosed
  | dropFlow => exact Peer.not_stranded_of_ne Presence.noConfusion
  | disposeConnection => exact Peer.not_stranded_of_closed rfl

/-- A flow that was left in the middle stays there unless it is closed or dropped itself. -/
theorem Turn.stranded (hturn : Turn s p step p' requests next) (h : p.Steady name)
    (hreleases : ¬ step.Releases p.name) (hp : p.Stranded) : p'.Stranded := by
  obtain ⟨hidle, hstarted, hopen⟩ := hp
  have hsuits := h.suits
  rw [hidle] at hsuits
  cases hturn with
  | poll =>
    unfold Peer.poll
    rw [hidle]
    exact ⟨hidle, hstarted, hopen⟩
  | abandon =>
    -- there is no run any more that could be given up
    unfold Peer.abandon
    rw [hidle]
    exact ⟨hidle, hstarted, hopen⟩
  | run =>
    have hhandled : p.handled = true := hsuits
    rw [Peer.run_of_idle hidle, Peer.start, Flow.start_of_ne_created s.node hstarted]
    show (p.afterRun _).Stranded
    rw [Peer.afterRun, if_pos hhandled]
    exact ⟨rfl, hstarted, hopen⟩
  | runOnce =>
    rw [Peer.runOnce, Flow.start_of_ne_created s.node hstarted]
    exact ⟨hidle, hstarted, hopen⟩
  | farEnd => exact ⟨hidle, hstarted, hopen⟩
  | handshake =>
    rw [← Flow.state_handshake s.node.name] at hstarted hopen
    exact ⟨hidle, hstarted, hopen⟩
  | closeFlow => exact absurd (.inl rfl) hreleases
  | requestClose =>
    have hstate : p.flow.requestClose.state = p.flow.state := if_neg hstarted
    rw [← hstate] at hstarted hopen
    exact ⟨hidle, hstarted, hopen⟩
  | dropFlow => exact absurd (.inr rfl) hreleases
  | disposeConnection hconnected => cases hidle.symm.trans hconnected

/-! ## Steps -/

/-- What steps keep of a peer, as long as they are `Allowed`, holds of it after any number of
them. -/
theorem exists_kept_followAll (Holds : Peer → Prop) (Allowed : String → Step → Prop)
    (hkeeps : ∀ {s : Session} {p : Peer} {step : Step}, s.Steady name → p ∈ s.peers → Holds p →
      Allowed p.name step → ∃ q ∈ (s.follow step).peers, q.name = p.name ∧ Holds q)
    (h : s.Steady name) (hp : p ∈ s.peers) (hholds : Holds p) (steps : List Step)
    (hallowed : ∀ step ∈ steps, Allowed p.name step) :
    ∃ q ∈ (s.followAll steps).peers, q.name = p.name ∧ Holds q := by
  induction steps generalizing s p with
  | nil => exact ⟨p, hp, rfl, hholds⟩
  | cons step steps ih =>
    obtain ⟨hstep, hsteps⟩ := List.forall_mem_cons.1 hallowed
    obtain ⟨p', hp', hname', hholds'⟩ := hkeeps h hp hholds hstep
    rw [← hname'] at hsteps
    obtain ⟨q, hq, hname, hholds''⟩ := ih (steady_follow h step) hp' hholds' hsteps
    exact ⟨q, hq, hname.trans hname', hholds''⟩

/-- A flow that was asked to stop stays so. -/
theorem exists_asked (h : s.Steady name) (hp : p ∈ s.peers) (hasked : p.flow.Asked)
    (steps : List Step) (hopens : ∀ step ∈ steps, ¬ step.Opens p.name) :
    ∃ q ∈ (s.followAll steps).peers, q.name = p.name ∧ q.flow.Asked := by
  refine exists_kept_followAll (fun p => p.flow.Asked) (fun peer step => ¬ step.Opens peer)
    (fun h hp hasked hopens => ?_) h hp hasked steps hopens
  obtain ⟨q, hq, hfollows⟩ := exists_follows h hp hopens
  exact ⟨q, hq, hfollows.name_eq, hfollows.lives.asked hasked⟩

theorem exists_stranded_follow (h : s.Steady name) (hp : p ∈ s.peers) (hstranded : p.Stranded)
    (hopens : ¬ step.Opens p.name) (hreleases : ¬ step.Releases p.name) :
    ∃ q ∈ (s.follow step).peers, q.name = p.name ∧ q.Stranded := by
  obtain ⟨q, hq, hname⟩ := exists_mem_follow hp step
  refine ⟨q, hq, hname, ?_⟩
  cases became_of_mem_follow hq with
  | same hq => rwa [eq_of_name_eq h.distinct hq hp hname]
  | turn hp' hturn =>
    obtain rfl := eq_of_name_eq h.distinct hp' hp (hturn.name_eq.symm.trans hname)
    exact hturn.stranded (h.peers _ hp) hreleases hstranded
  | opened hopened => exact absurd (hname ▸ hopened) hopens
  | cancelled hp' heq =>
    subst heq
    obtain rfl := eq_of_name_eq h.distinct hp' hp hname
    exact ⟨hstranded.idle, hstranded.started, hstranded.notClosed⟩

theorem exists_stranded (h : s.Steady name) (hp : p ∈ s.peers) (hstranded : p.Stranded)
    (steps : List Step)
    (hkept : ∀ step ∈ steps, ¬ step.Opens p.name ∧ ¬ step.Releases p.name) :
    ∃ q ∈ (s.followAll steps).peers, q.name = p.name ∧ q.Stranded :=
  exists_kept_followAll Peer.Stranded (fun peer step => ¬ step.Opens peer ∧ ¬ step.Releases peer)
    (fun h hp hstranded hkept => exists_stranded_follow h hp hstranded hkept.1 hkept.2)
    h hp hstranded steps hkept

/-- No flow of a peer of this name was left in the middle. -/
def Whole (peer : String) (s : Session) : Prop :=
  ∀ p ∈ s.peers, p.name = peer → ¬ p.Stranded

theorem whole_follow (h : s.Steady name) (hwhole : s.Whole peer) (hgives : ¬ step.GivesUp peer) :
    (s.follow step).Whole peer := by
  rintro q hq rfl
  cases became_of_mem_follow hq with
  | same hq => exact hwhole q hq rfl
  | turn hp hturn =>
    have hname := hturn.name_eq
    rw [hname] at hgives
    exact hturn.not_stranded h.named (h.peers _ hp) hgives (hwhole _ hp hname.symm)
  | opened _ hcreated => exact fun hstranded => hstranded.started hcreated
  | cancelled hp heq =>
    subst heq
    rintro ⟨hidle, hstarted, hopen⟩
    exact hwhole _ hp rfl ⟨hidle, hstarted, hopen⟩

/-- Where no run is given up, no flow is left in the middle. -/
theorem whole_followAll (n : Node) (peer : String) (steps : List Step)
    (hgives : ∀ step ∈ steps, ¬ step.GivesUp peer) :
    ((ofNode n).followAll steps).Whole peer := by
  -- the session before the steps is arbitrary in the induction
  have hall : ∀ s : Session, s.Steady n.name → s.Whole peer → (s.followAll steps).Whole peer := by
    induction steps with
    | nil => exact fun _ _ hwhole => hwhole
    | cons step steps ih =>
      obtain ⟨hstep, hsteps⟩ := List.forall_mem_cons.1 hgives
      exact fun s h hwhole => ih hsteps _ (steady_follow h step) (whole_follow h hwhole hstep)
  exact hall _ (steady_ofNode n) fun _ hp => nomatch hp

/-! ## Handles -/

/-- A step in which a flow is asked to stop through its handle. -/
theorem follow_requestClose (hs : s.Distinct) (hp : p ∈ s.peers) (hhandled : p.handled = true) :
    s.follow (.perform (.requestClose p.name)) =
      s.setPeer { p with flow := p.flow.requestClose } := by
  rw [follow, perform, withPeer, peer?_of_mem hs hp]
  dsimp only
  rw [if_pos hhandled]

/-- Where the run of a flow that was asked to stop cannot go on, the flow is closed or was left
in the middle. -/
theorem closed_or_stranded_of_rests (h : s.Steady name) (hp : p ∈ s.peers)
    (hasked : p.flow.Asked) (hrests : s.Rests p.name) :
    p.flow.state = .closed ∨ p.Stranded := by
  have hsuits := (h.peers p hp).suits
  cases hpresence : p.presence with
  | connected =>
    rw [hpresence] at hsuits
    obtain ⟨-, hcreated | hover⟩ := hsuits
    · exact absurd hcreated hasked.started
    · exact .inl hover.state
  | idle =>
    by_cases hclosed : p.flow.state = .closed
    · exact .inl hclosed
    · exact .inr ⟨hpresence, hasked.started, hclosed⟩
  | running phase =>
    -- a run that was asked to stop waits for its last bytes only, and then the flow is closed
    rw [hpresence] at hsuits
    obtain ⟨hstill, -⟩ := hrests.poll_eq h.distinct hp
    obtain ⟨hwaiting, hsame⟩ := Peer.poll_eq_of_still hpresence hstill
    obtain ⟨result, rfl, hparting, -⟩ :=
      Flow.blocked_of_poll hasked.cancelled hsuits hwaiting hsame
    exact .inl hparting.state
  | gone =>
    rw [hpresence] at hsuits
    exact .inl (Flow.Over.state hsuits)

/-- **Handles.** A flow is asked to stop through its handle, and other things are done before
and after that, until its run cannot go on. Then it is closed, unless a run of it was given up
in the middle; a flow that is not closed then stays so until its owner closes or drops it. -/
theorem closed_or_stranded (n : Node) {before after : List Step}
    (hp : ((ofNode n).followAll before).peer? peer = some p) (hhandled : p.handled = true)
    (hopens : ∀ step ∈ after, ¬ step.Opens peer)
    (hrests :
      ((ofNode n).followAll (before ++ .perform (.requestClose peer) :: after)).Rests peer) :
    ∃ q,
      ((ofNode n).followAll (before ++ .perform (.requestClose peer) :: after)).peer? peer =
        some q ∧
      q.flow.cancelled = true ∧
      (q.flow.state = .closed ∨ q.Stranded) ∧
      ((∀ step ∈ before ++ after, ¬ step.GivesUp peer) → q.flow.state = .closed) ∧
      (q.Stranded → ∀ more, (∀ step ∈ more, ¬ step.Opens peer ∧ ¬ step.Releases peer) →
        ∃ r, ((ofNode n).followAll
            (before ++ .perform (.requestClose peer) :: after ++ more)).peer? peer = some r ∧
          r.Stranded) := by
  have hwhole := whole_followAll n peer (before ++ .perform (.requestClose peer) :: after)
  have hs := steady_followAll (steady_ofNode n) before
  rw [followAll_append, followAll_cons] at hrests hwhole ⊢
  simp only [followAll_append, followAll_cons]
  generalize (ofNode n).followAll before = s at hp hrests hwhole hs ⊢
  obtain ⟨hmem, rfl⟩ := mem_of_peer? hp
  have hs₁ := steady_follow hs (.perform (.requestClose p.name))
  have hp₁ : { p with flow := p.flow.requestClose } ∈
      (s.follow (.perform (.requestClose p.name))).peers := by
    rw [follow_requestClose hs.distinct hmem hhandled]
    exact mem_setPeer_self
  generalize s.follow (.perform (.requestClose p.name)) = s₁ at hrests hwhole hs₁ hp₁ ⊢
  obtain ⟨q, hq, hname, hasked⟩ := exists_asked hs₁ hp₁ p.flow.asked_requestClose after hopens
  have ht := steady_followAll hs₁ after
  replace hname : q.name = p.name := hname
  generalize s₁.followAll after = t at hrests hwhole hq ht ⊢
  rw [← hname] at hrests hwhole ⊢
  have hended := closed_or_stranded_of_rests ht hq hasked hrests
  refine ⟨q, peer?_of_mem ht.distinct hq, hasked.cancelled, hended, fun hgives => ?_,
    fun hstranded more hmore => ?_⟩
  · refine hended.resolve_right (hwhole (fun step hstep => ?_) q hq rfl)
    rcases List.mem_append.1 hstep with hbefore | hafter
    · exact hgives step (List.mem_append_left _ hbefore)
    · rcases List.mem_cons.1 hafter with rfl | hafter
      · rintro (hgives | hgives) <;> cases hgives
      · exact hgives step (List.mem_append_right _ hafter)
  · obtain ⟨r, hr, hname', hstranded'⟩ := exists_stranded ht hq hstranded more hmore
    rw [← hname']
    exact ⟨r, peer?_of_mem (steady_followAll ht more).distinct hr, hstranded'⟩

/-- The session of a server with one flow: so much has arrived on it when this is done, and it is
asked to stop before the rest happens. -/
def requestedSession (arrived : Bytes) (step : Step) (after : List Step) : Session :=
  (ofNode (.newServer "hub" .stamp 0 .morning)).followAll
    ([.perform (.openFlow "a"), .perform (.farEnd "a" (.arrive arrived)), step] ++
      .perform (.requestClose "a") :: after)

/-- A run that goes on in its handshake closes its flow. -/
theorem exists_closed_requested :
    ∃ q, (requestedSession [] (.perform (.run "a")) [.poll "a"]).peer? "a" = some q ∧
      q.flow.cancelled = true ∧ q.flow.state = .closed := by
  have hopens : ∀ step ∈ [Step.poll "a"], ¬ step.Opens "a" := by
    rintro step hstep hopens
    rw [List.mem_singleton.1 hstep] at hopens
    rcases hopens with hstep | hstep <;> cases hstep
  have hrests : (requestedSession [] (.perform (.run "a")) [.poll "a"]).Rests "a" := rfl
  obtain ⟨q, hq, hcancelled, -, hclosed, -⟩ :=
    closed_or_stranded (.newServer "hub" .stamp 0 .morning) rfl rfl hopens hrests
  refine ⟨q, hq, hcancelled, hclosed fun step hstep hgives => ?_⟩
  simp only [List.cons_append, List.nil_append, List.mem_cons, List.not_mem_nil, or_false] at hstep
  obtain rfl | rfl | rfl | rfl := hstep <;> rcases hgives with hgives | hgives <;> cases hgives

/-- Runs that are begun and given up in the handshake or after it leave their flows open, though
they were asked to stop and nothing is left to do. -/
theorem exists_open_requested :
    (∃ p, (requestedSession [] (.perform (.runOnce "a")) []).peers = [p] ∧ p.name = "a" ∧
      (requestedSession [] (.perform (.runOnce "a")) []).Rests "a" ∧
      p.flow.cancelled = true ∧ p.flow.state = .handshaking) ∧
    ∃ p, (requestedSession (frameOf signature ++ frameOf (Text.Utf8.encode "a"))
        (.perform (.runOnce "a")) []).peers = [p] ∧ p.name = "a" ∧
      (requestedSession (frameOf signature ++ frameOf (Text.Utf8.encode "a"))
        (.perform (.runOnce "a")) []).Rests "a" ∧
      p.flow.cancelled = true ∧ p.flow.state = .active :=
  ⟨⟨_, rfl, rfl, rfl, rfl, rfl⟩, _, rfl, rfl, rfl, rfl, rfl⟩

end Session

end Parley.Chat
