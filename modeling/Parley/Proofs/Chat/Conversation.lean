import Parley.Proofs.Chat.Broadcast
import Parley.Proofs.Chat.Hearing

/-!
# Conversations

The run of a flow comes to what the bytes from its far end say: however they are cut, at
whatever steps they arrive, and whatever is done with the other flows meanwhile.

- `Session.Undisturbed`: a session in which nothing was cancelled and typing goes on.
- `Step.IsCalm`: a step in which nothing happens to a flow but that bytes arrive.
- `Session.received`, `Session.heardAll`: the bytes that arrived, and the lines that were
  handed on to the node.
- `Peer.Fresh`, `Peer.Engaged`: a flow before and after its run begins. Every calm step
  keeps them (`Peer.fresh_of_calmly`, `Peer.engaged_of_calmly`).
- `Session.Grants`: whether the flow of a peer has a queue when it asks for one. At a server it
  always has (`Session.grants_of_undisturbed`).
- `Session.outcome_of_grants`: what the run of a flow comes to.
-/

namespace Parley.Chat

open Wire

/-! ## Clients -/

namespace Node

/-- A client at which lines may still be typed. -/
def IsOpenClient : Node → Prop
  | .client node => node.input.ended = false
  | .server _ => False

variable {n : Node}

theorem isOpenClient_serve (h : n.IsOpenClient) (request : Request) :
    (n.serve request).IsOpenClient := by
  cases n with
  | server node => exact h.elim
  | client node =>
    rcases request with id | ⟨_ | _, _⟩ | ⟨_ | _⟩ | ⟨sender, line⟩ | line
    · simp only [serve, openOutbox]
      split <;> exact h
    · exact h
    · exact h
    · exact h
    · exact h
    · simp only [serve, consume]
      split <;> exact h
    · exact h

theorem isOpenClient_serveAll (h : n.IsOpenClient) (requests : List Request) :
    (n.serveAll requests).IsOpenClient := by
  induction requests generalizing n with
  | nil => exact h
  | cons request requests ih => exact ih (isOpenClient_serve h request)

theorem isOpenClient_typeLine (h : n.IsOpenClient) (line : String) :
    (n.typeLine line).2.IsOpenClient := by
  cases n with
  | server node => exact h.elim
  | client node =>
    unfold typeLine
    dsimp only
    split
    · exact h
    · split <;> exact h

theorem isOpenClient_closeConsole (h : n.IsOpenClient) : n.closeConsole.IsOpenClient := by
  cases n with
  | server node => exact h.elim
  | client node => exact h

/-- The queue of a client stays open while lines may be typed. -/
theorem isEnded_of_isOpenClient (h : n.IsOpenClient) (outbox : Outbox) :
    n.isEnded outbox = false := by
  cases n with
  | server node => exact h.elim
  | client node => exact h

/-- A server has a queue for every flow. -/
theorem offers_of_isServer (h : n.IsServer) (id : FlowId) : n.Offers false id := by
  obtain ⟨number, n', hopen, hserves⟩ := exists_openOutbox h id
  unfold Offers
  rw [hopen]
  exact ⟨rfl, isEnded_of_serves hserves⟩

end Node

namespace Session

/-- A session of a server, or of a client at which lines may still be typed, in which
nothing was cancelled. -/
structure Undisturbed (client : Prop) (s : Session) : Prop where
  distinct : s.Distinct
  uncancelled : s.cancelled = false
  node : (∃ name log counts, s.Balanced name log counts) ∨ client ∧ s.node.IsOpenClient

/-- A step in which nothing is cancelled, and typing does not end. -/
def Step.IsQuiet (step : Step) : Prop :=
  step ≠ .perform .cancel ∧ step ≠ .perform .endTyping

theorem isQuiet_run (peer : String) : Step.IsQuiet (.perform (.run peer)) :=
  ⟨(nomatch ·), (nomatch ·)⟩

theorem isQuiet_poll (peer : String) : Step.IsQuiet (.poll peer) :=
  ⟨(nomatch ·), (nomatch ·)⟩

theorem cancelled_follow (s : Session) {step : Step} (h : step ≠ .perform .cancel) :
    (s.follow step).cancelled = s.cancelled := by
  have heffect := s.effect_follow step
  generalize s.requests step = requests, s.follow step = s' at heffect
  cases heffect with
  | cancel => exact absurd rfl h
  | still | turn | openFlow | openConnection | typeLine | endTyping | closeConsole | broadcast
  | consume => rfl
  | openOutbox key => exact (s.samePeers_openOutbox key).cancelled
  | nextLine key => exact (s.samePeers_nextLine key).cancelled
  | closeOutbox key => exact (s.samePeers_closeOutbox key).cancelled

theorem SamePeers.isOpenClient {s s' : Session} (h : s.SamePeers s') (hs : s.node.IsOpenClient) :
    s'.node.IsOpenClient := by
  obtain ⟨requests, hnode⟩ := h.node
  rw [hnode]
  exact Node.isOpenClient_serveAll hs requests

theorem isOpenClient_follow {s : Session} (h : s.node.IsOpenClient) {step : Step}
    (hquiet : step.IsQuiet) : (s.follow step).node.IsOpenClient := by
  have heffect := s.effect_follow step
  generalize s.requests step = requests, s.follow step = s' at heffect
  cases heffect with
  | endTyping => exact absurd rfl hquiet.2
  | still | openFlow | openConnection | cancel => exact h
  | turn => exact Node.isOpenClient_serveAll h _
  | typeLine line => exact Node.isOpenClient_typeLine h line
  | closeConsole => exact Node.isOpenClient_closeConsole h
  | broadcast line => exact Node.isOpenClient_serve h (.broadcast line)
  | consume sender line => exact Node.isOpenClient_serve h (.consume sender line)
  | openOutbox key => exact (s.samePeers_openOutbox key).isOpenClient h
  | nextLine key => exact (s.samePeers_nextLine key).isOpenClient h
  | closeOutbox key => exact (s.samePeers_closeOutbox key).isOpenClient h

theorem undisturbed_follow {client : Prop} {s : Session} (h : s.Undisturbed client) {step : Step}
    (hquiet : step.IsQuiet) : (s.follow step).Undisturbed client where
  distinct := distinct_follow h.distinct step
  uncancelled := (s.cancelled_follow hquiet.1).trans h.uncancelled
  node := by
    rcases h.node with ⟨name, log, counts, hbalanced⟩ | ⟨hclient, hopen⟩
    · exact .inl ⟨_, _, _, balanced_follow hbalanced step⟩
    · exact .inr ⟨hclient, isOpenClient_follow hopen hquiet⟩

/-- While a run takes lines from its queue, the queue stays open. -/
theorem Undisturbed.isEnded {client : Prop} {s : Session} (h : s.Undisturbed client) {p : Peer}
    (hp : p ∈ s.peers)
    {outbox : Outbox} {sending : SendStage} {receiving : ReceiveStage}
    (hpresence : p.presence = .running (.pumping outbox sending receiving)) :
    s.node.isEnded outbox = false := by
  rcases h.node with ⟨name, log, counts, hbalanced⟩ | ⟨-, hopen⟩
  · have haccount := hbalanced.accounts p hp
    rw [hpresence] at haccount
    cases haccount with
    | fresh hfree => rcases hfree with h | h | h <;> cases h
    | queued hqueues => exact Node.isEnded_of_serves hqueues.serves
    | silent hspent => obtain h | h | ⟨⟨_, h⟩, -⟩ := hspent <;> cases h
  · exact Node.isEnded_of_isOpenClient hopen outbox

/-- In a session of a server. -/
theorem Undisturbed.isServer {s : Session} (h : s.Undisturbed False) : s.node.IsServer := by
  obtain ⟨name, log, counts, hbalanced⟩ | ⟨hclient, -⟩ := h.node
  · exact hbalanced.server
  · exact hclient.elim

/-! ## What happens to one flow -/

namespace Step

/-- The peer whose flow a step is about. -/
def subject : Step → Option String
  | .poll peer | .abandon peer => some peer
  | .perform action =>
    match action with
    | .farEnd peer _ | .openFlow peer | .openConnection peer | .run peer | .runOnce peer
    | .handshake peer | .closeFlow peer | .requestClose peer | .dropFlow peer
    | .disposeConnection peer => some peer
    | _ => none

/-- A quiet step in which nothing happens to the flow of a peer, but that its run goes on,
bytes arrive, or the far end ends the stream. -/
def IsCalm (peer : String) (step : Step) : Prop :=
  step.IsQuiet ∧
    (step.subject = some peer →
      step = .poll peer ∨ (∃ chunk, step = .perform (.farEnd peer (.arrive chunk))) ∨
        step = .perform (.farEnd peer .finish))

/-- The bytes that arrive from a peer in a step. -/
def chunk (peer : String) : Step → Bytes
  | .perform (.farEnd other (.arrive chunk)) => if other = peer then chunk else []
  | _ => []

/-- Whether a peer ends the stream in a step. -/
def ends (peer : String) : Step → Bool
  | .perform (.farEnd other .finish) => other = peer
  | _ => false

/-- The lines among requests that the flow of a peer hands on in a step. -/
def lines (peer : String) (requests : List Request) : Step → List (String × String)
  | .poll other | .perform (.run other) => if other = peer then Flow.consumed requests else []
  | _ => []

theorem isCalm_poll (peer : String) : IsCalm peer (.poll peer) :=
  ⟨isQuiet_poll peer, fun _ => .inl rfl⟩

theorem isCalm_arrive (peer : String) (chunk : Bytes) :
    IsCalm peer (.perform (.farEnd peer (.arrive chunk))) :=
  ⟨⟨(nomatch ·), (nomatch ·)⟩, fun _ => .inr (.inl ⟨chunk, rfl⟩)⟩

theorem isCalm_finish (peer : String) : IsCalm peer (.perform (.farEnd peer .finish)) :=
  ⟨⟨(nomatch ·), (nomatch ·)⟩, fun _ => .inr (.inr rfl)⟩

end Step

/-- The bytes that arrive from a peer. -/
def received (peer : String) (steps : List Step) : Bytes :=
  steps.flatMap (Step.chunk peer)

/-- The lines that the flow of a peer hands on to the node in a step, each with the name of
its sender. -/
def heard (peer : String) (s : Session) (step : Step) : List (String × String) :=
  step.lines peer (s.requests step)

/-- The lines that the flow of a peer hands on to the node. -/
def heardAll (peer : String) (s : Session) : List Step → List (String × String)
  | [] => []
  | step :: steps => s.heard peer step ++ (s.follow step).heardAll peer steps

/-- What the run of a peer has come to, when it has returned. -/
def outcome (peer : String) (s : Session) (steps : List Step) : Option Outcome :=
  (s.followAll steps).peer? peer |>.bind fun p =>
    p.result.map fun result => ⟨p.flow.remoteName, s.heardAll peer steps, result⟩

section Subjects

variable {s : Session} {p p' : Peer} {step : Step} {peer : String} {requests : List Request}
  {next : FlowId}

theorem Turn.subject_eq (h : Turn s p step p' requests next) : step.subject = some p.name := by
  cases h <;> rfl

theorem chunk_of_subject_ne (h : step.subject ≠ some peer) : step.chunk peer = [] := by
  unfold Step.chunk
  split
  · exact if_neg fun heq => h (congrArg some heq)
  · rfl

theorem ends_of_subject_ne (h : step.subject ≠ some peer) : step.ends peer = false := by
  unfold Step.ends
  split
  · exact decide_eq_false fun heq => h (congrArg some heq)
  · rfl

theorem lines_of_subject_ne (h : step.subject ≠ some peer) (requests : List Request) :
    step.lines peer requests = [] := by
  unfold Step.lines
  split
  · exact if_neg fun heq => h (congrArg some heq)
  · exact if_neg fun heq => h (congrArg some heq)
  · rfl

/-- A step about another flow leaves a peer as it is. -/
theorem mem_follow_of_subject_ne (hp : p ∈ s.peers) (hquiet : step.IsQuiet)
    (h : step.subject ≠ some p.name) : p ∈ (s.follow step).peers := by
  have heffect := s.effect_follow step
  generalize s.requests step = requests, s.follow step = s' at heffect
  cases heffect with
  | cancel => exact absurd rfl hquiet.1
  | still | typeLine | endTyping | closeConsole | broadcast | consume => exact hp
  | turn _ hturn =>
    have hne := hturn.subject_eq ▸ h
    exact mem_setPeer_of_ne hp fun heq => hne (congrArg some (heq.trans hturn.name_eq).symm)
  | openFlow other => exact mem_setPeer_of_ne hp fun heq => h (congrArg some heq.symm)
  | openConnection other => exact mem_setPeer_of_ne hp fun heq => h (congrArg some heq.symm)
  | openOutbox key => exact (s.samePeers_openOutbox key).peers ▸ hp
  | nextLine key => exact (s.samePeers_nextLine key).peers ▸ hp
  | closeOutbox key => exact (s.samePeers_closeOutbox key).peers ▸ hp

/-- What becomes of a flow in a calm step: the bytes that arrive, whether the stream ends,
and the lines that are handed on. -/
inductive Calmly (s : Session) (p : Peer) :
    Step → Peer → Bytes → Bool → List (String × String) → Prop
  | still {step : Step} : Calmly s p step p [] false []
  | poll :
      Calmly s p (.poll p.name) (p.poll s.node).1 [] false (Flow.consumed (p.poll s.node).2)
  | arrive (chunk : Bytes) :
      Calmly s p (.perform (.farEnd p.name (.arrive chunk)))
        { p with flow := { p.flow with link := p.flow.link.happen (.arrive chunk) } } chunk false []
  | finish :
      Calmly s p (.perform (.farEnd p.name .finish))
        { p with flow := { p.flow with link := p.flow.link.happen .finish } } [] true []

/-- What is heard when the run of a peer goes on, or begins. -/
theorem heard_of_poll (hs : s.Distinct) (hp : p ∈ s.peers) :
    s.heard p.name (.poll p.name) = Flow.consumed (p.poll s.node).2 := by
  rw [heard, requests_poll hs hp]
  exact if_pos rfl

theorem heard_of_run (hs : s.Distinct) (hp : p ∈ s.peers) :
    s.heard p.name (.perform (.run p.name)) =
      Flow.consumed (p.run s.nextFlow s.cancelled s.node).2 := by
  rw [heard, requests_run hs hp]
  exact if_pos rfl

theorem calmly_follow (hs : s.Distinct) (hp : p ∈ s.peers) (hname : p.name = peer)
    (hcalm : step.IsCalm peer) :
    ∃ p' ∈ (s.follow step).peers, p'.name = peer ∧
      Calmly s p step p' (step.chunk peer) (step.ends peer) (s.heard peer step) := by
  subst hname
  -- A step about another flow does not touch this one.
  by_cases hsubject : step.subject = some p.name
  case neg =>
    rw [chunk_of_subject_ne hsubject, ends_of_subject_ne hsubject, heard,
      lines_of_subject_ne hsubject]
    exact ⟨p, mem_follow_of_subject_ne hp hcalm.1 hsubject, rfl, .still⟩
  case pos =>
    have hpeer := peer?_of_mem hs hp
    have hfarEnd : ∀ event, (s.follow (.perform (.farEnd p.name event))) =
        s.setPeer { p with flow := { p.flow with link := p.flow.link.happen event } } := by
      intro event
      rw [follow, perform, withPeer, hpeer]
    obtain rfl | ⟨chunk, rfl⟩ | rfl := hcalm.2 hsubject
    · rw [follow_poll hs hp, heard_of_poll hs hp]
      exact ⟨_, mem_setPeer_self, name_poll p s.node, .poll⟩
    · have hchunk : Step.chunk p.name (.perform (.farEnd p.name (.arrive chunk))) = chunk :=
        if_pos rfl
      rw [hfarEnd, hchunk]
      exact ⟨_, mem_setPeer_self, rfl, .arrive chunk⟩
    · have hends : Step.ends p.name (.perform (.farEnd p.name .finish)) = true :=
        decide_eq_true rfl
      rw [hfarEnd, hends]
      exact ⟨_, mem_setPeer_self, rfl, .finish⟩

end Subjects

end Session

/-! ## The flow of a peer -/

namespace Peer

/-- A flow whose run was not begun, with the bytes that arrived. -/
structure Fresh (received : Bytes) (ended : Bool) (p : Peer) : Prop where
  free : p.presence = .idle ∨ p.presence = .connected
  created : p.flow.state = .created
  uncancelled : p.flow.cancelled = false
  unvalidated : p.flow.validated = false
  nameless : p.flow.remoteName = none
  both : p.flow.holding = .both
  link : Awaits p.flow.link received ended
  resultless : p.result = none

/-- A flow whose run was begun: it waits, unless it is known to have `returned`, or has come
to what the bytes say. -/
inductive Engaged (taken : Bool) (received : Bytes) (heard : List (String × String))
    (ended returned : Bool) (p : Peer) : Prop
  | running {phase : Phase} (hreturned : returned = false)
      (hpresence : p.presence = .running phase) (hresult : p.result = none)
      (hhears : p.flow.Hears taken received heard ended phase)
  | settled {result : FlowResult} (hpresence : p.presence = .idle ∨ p.presence = .gone)
      (hresult : p.result = some result)
      (hall : ∀ more, (ended = true → more = []) →
        conversation taken (frames (received ++ more)) = ⟨p.flow.remoteName, heard, result⟩)

variable {taken : Bool} {received : Bytes} {heard : List (String × String)}
  {ended returned : Bool} {p : Peer} {n : Node}

theorem remoteName_afterRun (p : Peer) (result : FlowResult) :
    (p.afterRun result).flow.remoteName = p.flow.remoteName := by
  unfold afterRun
  split <;> rfl

/-- What a run comes to is kept with its peer. Behind the end of the stream it does not
wait. -/
theorem engaged_settle {progress : Flow.RunProgress} {flow : Flow} {requests : List Request}
    (h : Flow.Heard taken received heard ended (progress, flow, requests))
    (hresult : p.result = none) :
    (p.settle progress flow).Engaged taken received (heard ++ Flow.consumed requests) ended
      ended := by
  have hfinished : ∀ result, (p.settle (.finished result) flow).result = some result :=
    fun result => result_afterRun { p with flow } result
  have hpresence : ∀ result, (p.settle (.finished result) flow).presence = .idle ∨
      (p.settle (.finished result) flow).presence = .gone :=
    fun result => presence_afterRun { p with flow } result
  cases h with
  | waiting hended hhears => exact .running hended rfl hresult hhears
  | @finished result _ _ hall =>
    refine .settled (hpresence result) (hfinished result) fun more hmore => ?_
    have hname := remoteName_afterRun { p with flow } result
    rw [hall more hmore]
    exact congrArg (Outcome.mk · _ _) hname.symm

theorem engaged_start (h : p.Fresh received ended) (hgrants : n.Grants taken (p.start n).2) :
    (p.start n).1.Engaged taken received (Flow.consumed (p.start n).2) ended ended :=
  engaged_settle (Flow.heard_start h.created h.uncancelled h.link h.unvalidated h.nameless h.both
    hgrants) h.resultless

/-- The run of a flow begins. -/
theorem engaged_run (h : p.Fresh received ended) (id : FlowId)
    (hgrants : n.Grants taken (p.run id false n).2) :
    (p.run id false n).1.Engaged taken received (Flow.consumed (p.run id false n).2) ended
      ended := by
  rcases h.free with hidle | hconnected
  · rw [run_of_idle hidle] at hgrants ⊢
    exact engaged_start h hgrants
  · have hheld : p.flow.isDisposed = false := by
      rw [Flow.isDisposed, h.both]
      rfl
    have hflow : Fresh received ended
        { p with flow := { p.flow with id, cancelled := false } } :=
      { h with uncancelled := rfl }
    rw [run_of_connected hconnected hheld] at hgrants ⊢
    exact engaged_start hflow hgrants

theorem poll_of_ne_running (h : ∀ phase, p.presence ≠ .running phase) : p.poll n = (p, []) := by
  unfold poll
  split
  case h_1 phase hrunning => exact absurd hrunning (h phase)
  case h_2 => rfl

theorem Engaged.mono {returned' : Bool} (h : p.Engaged taken received heard ended returned)
    (hle : returned' = true → returned = true) :
    p.Engaged taken received heard ended returned' := by
  cases h with
  | running hreturned hpresence hresult hhears =>
    refine .running (Bool.eq_false_iff.2 fun htrue => ?_) hpresence hresult hhears
    cases (hle htrue).symm.trans hreturned
  | settled hpresence hresult hall => exact .settled hpresence hresult hall

/-- The run of a flow goes on. -/
theorem engaged_poll (h : p.Engaged taken received heard ended returned)
    (hgrants : p.flow.isIntroduced = false → n.Grants taken (p.poll n).2)
    (hpending : ∀ outbox sending receiving,
      p.presence = .running (.pumping outbox sending receiving) → n.isEnded outbox = false) :
    (p.poll n).1.Engaged taken received (heard ++ Flow.consumed (p.poll n).2) ended
      (returned || ended) := by
  cases h with
  | settled hpresence hresult hall =>
    have hstill : p.poll n = (p, []) := poll_of_ne_running fun phase hrunning => by
      rcases hpresence with hpresence | hpresence <;> cases hrunning.symm.trans hpresence
    rw [hstill]
    exact .settled hpresence hresult ((List.append_nil heard).symm ▸ hall)
  | @running phase hreturned hpresence hresult hhears =>
    have hpoll : p.poll n =
        (p.settle (p.flow.poll phase n).1 (p.flow.poll phase n).2.1,
          (p.flow.poll phase n).2.2) := by
      unfold poll
      rw [hpresence]
    rw [hpoll] at hgrants ⊢
    have hheard := Flow.heard_poll hhears hgrants fun outbox sending receiving hphase =>
      hpending outbox sending receiving (hphase ▸ hpresence)
    rw [hreturned, Bool.false_or]
    exact engaged_settle hheard hresult

/-! ### Calm steps -/

variable {client : Prop} {s : Session} {step : Session.Step} {p' : Peer} {chunk : Bytes}
  {ends : Bool} {lines : List (String × String)}

theorem fresh_of_calmly (h : p.Fresh received ended) (hcalm : s.Calmly p step p' chunk ends lines) :
    p'.Fresh (received ++ chunk) (ended || ends) ∧ lines = [] := by
  cases hcalm with
  | still =>
    rw [List.append_nil, Bool.or_false]
    exact ⟨h, rfl⟩
  | poll =>
    have hstill : p.poll s.node = (p, []) := poll_of_ne_running fun phase hrunning => by
      rcases h.free with hfree | hfree <;> cases hrunning.symm.trans hfree
    rw [hstill, List.append_nil, Bool.or_false]
    exact ⟨h, rfl⟩
  | arrive chunk =>
    rw [Bool.or_false]
    exact ⟨{ h with link := h.link.arrive chunk }, rfl⟩
  | finish =>
    rw [List.append_nil, Bool.or_true]
    exact ⟨{ h with link := h.link.finish }, rfl⟩

theorem engaged_of_calmly (h : p.Engaged taken received heard ended returned)
    (hcalm : s.Calmly p step p' chunk ends lines) (hs : s.Undisturbed client) (hp : p ∈ s.peers)
    (hgrants : step.subject = some p.name → p.flow.isIntroduced = false →
      s.node.Grants taken (s.requests step))
    (hbehind : ended = true → chunk = []) :
    p'.Engaged taken (received ++ chunk) (heard ++ lines) (ended || ends) returned := by
  cases hcalm with
  | still =>
    rw [List.append_nil, List.append_nil, Bool.or_false]
    exact h
  | poll =>
    have hgranted := hgrants rfl
    rw [Session.requests_poll hs.distinct hp] at hgranted
    rw [List.append_nil, Bool.or_false]
    exact (engaged_poll h hgranted fun _ _ _ => hs.isEnded hp).mono fun hreturned => by
      rw [hreturned, Bool.true_or]
  | arrive chunk =>
    rw [List.append_nil, Bool.or_false]
    cases h with
    | running hreturned hpresence hresult hhears =>
      exact .running hreturned hpresence hresult (hhears.arrive chunk)
    | settled hpresence hresult hall =>
      -- The run stopped at a frame in front of the chunk, or at the end of the stream.
      refine .settled hpresence hresult fun more hmore => ?_
      rw [List.append_assoc]
      exact hall (chunk ++ more) fun hended => by rw [hbehind hended, hmore hended]; rfl
  | finish =>
    rw [List.append_nil, List.append_nil, Bool.or_true]
    cases h with
    | running hreturned hpresence hresult hhears =>
      exact .running hreturned hpresence hresult hhears.finish
    | settled hpresence hresult hall =>
      exact .settled hpresence hresult fun more hmore => hall more fun _ => hmore rfl

end Peer

/-! ## Whole runs -/

namespace Session

/-- In these steps, each time the flow of a peer asks for a queue at the end of its handshake,
the node offers one, or it was `taken`. -/
def Grants (taken : Bool) (peer : String) (s : Session) : List Step → Prop
  | [] => True
  | step :: steps =>
    (∀ p ∈ s.peers, p.name = peer → step.subject = some peer → p.flow.isIntroduced = false →
      s.node.Grants taken (s.requests step)) ∧
    (s.follow step).Grants taken peer steps

/-- Nothing arrives from a peer behind the end of its stream. -/
def InOrder (peer : String) (steps : List Step) : Prop :=
  steps.Pairwise fun first later => first.ends peer = true → later.chunk peer = []

section Runs

variable {client : Prop} {taken : Bool} {s : Session} {p : Peer} {peer : String}
  {steps more : List Step} {bytes : Bytes} {lines : List (String × String)} {ended returned : Bool}

theorem heardAll_append (peer : String) (s : Session) (steps more : List Step) :
    s.heardAll peer (steps ++ more) =
      s.heardAll peer steps ++ (s.followAll steps).heardAll peer more := by
  induction steps generalizing s with
  | nil => rfl
  | cons step steps ih => rw [List.cons_append, heardAll, heardAll, ih, List.append_assoc,
      followAll_cons]

theorem undisturbed_followAll (hs : s.Undisturbed client) (hquiet : ∀ step ∈ steps, step.IsQuiet) :
    (s.followAll steps).Undisturbed client := by
  induction steps generalizing s with
  | nil => exact hs
  | cons step steps ih =>
    obtain ⟨hfirst, hrest⟩ := List.forall_mem_cons.1 hquiet
    exact ih (undisturbed_follow hs hfirst) hrest

theorem isOpenClient_followAll (hs : s.node.IsOpenClient) (hquiet : ∀ step ∈ steps, step.IsQuiet) :
    (s.followAll steps).node.IsOpenClient := by
  induction steps generalizing s with
  | nil => exact hs
  | cons step steps ih =>
    obtain ⟨hfirst, hrest⟩ := List.forall_mem_cons.1 hquiet
    exact ih (isOpenClient_follow hs hfirst) hrest

theorem grants_append :
    s.Grants taken peer (steps ++ more) ↔
      s.Grants taken peer steps ∧ (s.followAll steps).Grants taken peer more := by
  induction steps generalizing s with
  | nil => exact (iff_of_eq (true_and _)).symm
  | cons step steps ih => rw [List.cons_append, Grants, Grants, ih, and_assoc, followAll_cons]

/-- A server has a queue for every flow. -/
theorem grants_of_undisturbed (hs : s.Undisturbed False) (hquiet : ∀ step ∈ steps, step.IsQuiet) :
    s.Grants false peer steps := by
  induction steps generalizing s with
  | nil => trivial
  | cons step steps ih =>
    obtain ⟨hfirst, hrest⟩ := List.forall_mem_cons.1 hquiet
    exact ⟨fun _ _ _ _ _ id _ _ => Node.offers_of_isServer hs.isServer id,
      ih (undisturbed_follow hs hfirst) hrest⟩

/-- Before its run a flow only takes in what arrives. -/
theorem fresh_followAll (hs : s.Undisturbed client) (hp : p ∈ s.peers) (hname : p.name = peer)
    (h : p.Fresh bytes ended) (hcalm : ∀ step ∈ steps, step.IsCalm peer) :
    ∃ p' ∈ (s.followAll steps).peers, p'.name = peer ∧
      p'.Fresh (bytes ++ received peer steps) (ended || steps.any (Step.ends peer)) ∧
        s.heardAll peer steps = [] := by
  induction steps generalizing s p bytes ended with
  | nil =>
    refine ⟨p, hp, hname, ?_, rfl⟩
    rw [received, List.flatMap_nil, List.append_nil, List.any_nil, Bool.or_false]
    exact h
  | cons step steps ih =>
    obtain ⟨hfirst, hrest⟩ := List.forall_mem_cons.1 hcalm
    obtain ⟨p₁, hp₁, hname₁, hcalmly⟩ := calmly_follow hs.distinct hp hname hfirst
    obtain ⟨hfresh, hnone⟩ := Peer.fresh_of_calmly h hcalmly
    obtain ⟨p', hp', hname', hfresh', hnone'⟩ :=
      ih (undisturbed_follow hs hfirst.1) hp₁ hname₁ hfresh hrest
    refine ⟨p', hp', hname', ?_, ?_⟩
    · rw [received, List.flatMap_cons, List.any_cons, ← List.append_assoc, ← Bool.or_assoc]
      exact hfresh'
    · rw [heardAll, hnone, hnone']
      rfl

/-- Whatever happens meanwhile, a run hears what arrives. -/
theorem engaged_followAll (hs : s.Undisturbed client) (hp : p ∈ s.peers) (hname : p.name = peer)
    (h : p.Engaged taken bytes lines ended returned) (hcalm : ∀ step ∈ steps, step.IsCalm peer)
    (hgrants : s.Grants taken peer steps)
    (hbehind : ended = true → ∀ step ∈ steps, step.chunk peer = [])
    (horder : InOrder peer steps) :
    ∃ p' ∈ (s.followAll steps).peers, p'.name = peer ∧
      p'.Engaged taken (bytes ++ received peer steps) (lines ++ s.heardAll peer steps)
        (ended || steps.any (Step.ends peer)) returned := by
  induction steps generalizing s p bytes lines ended with
  | nil =>
    refine ⟨p, hp, hname, ?_⟩
    rw [received, List.flatMap_nil, List.append_nil, heardAll, List.append_nil, List.any_nil,
      Bool.or_false]
    exact h
  | cons step steps ih =>
    obtain ⟨hfirst, hrest⟩ := List.forall_mem_cons.1 hcalm
    obtain ⟨hgranted, hgrants'⟩ := hgrants
    obtain ⟨hlater, horder'⟩ := List.pairwise_cons.1 horder
    obtain ⟨p₁, hp₁, hname₁, hcalmly⟩ := calmly_follow hs.distinct hp hname hfirst
    have hengaged := Peer.engaged_of_calmly h hcalmly hs hp (hname.symm ▸ hgranted p hp hname)
      fun hended => hbehind hended step (List.mem_cons_self ..)
    have hbehind' : (ended || step.ends peer) = true → ∀ later ∈ steps,
        later.chunk peer = [] := by
      intro hended later hmem
      rcases (Bool.or_eq_true _ _).mp hended with hended | hends
      · exact hbehind hended later (List.mem_cons_of_mem _ hmem)
      · exact hlater later hmem hends
    obtain ⟨p', hp', hname', hengaged'⟩ :=
      ih (undisturbed_follow hs hfirst.1) hp₁ hname₁ hengaged hrest hgrants' hbehind' horder'
    refine ⟨p', hp', hname', ?_⟩
    rw [received, List.flatMap_cons, List.any_cons, heardAll, ← List.append_assoc,
      ← List.append_assoc, ← Bool.or_assoc]
    exact hengaged'

end Runs

section Conversations

variable {client : Prop} {taken : Bool} {s : Session} {p : Peer} {peer : String} {bytes : Bytes}
  {lines : List (String × String)} {ended : Bool}

/-- A flow that is opened is fresh. -/
theorem exists_fresh_of_opening {opening : Step} (hs : s.Undisturbed client)
    (hopening : opening = .perform (.openFlow peer) ∨ opening = .perform (.openConnection peer)) :
    ∃ p ∈ (s.follow opening).peers, p.name = peer ∧ p.Fresh [] false := by
  have hlink : Awaits (.ofStream .idle) [] false := ⟨Reader.tidy_fresh, rfl, rfl, rfl⟩
  rcases hopening with rfl | rfl
  · refine ⟨_, mem_setPeer_self, rfl, ?_⟩
    exact ⟨.inl rfl, rfl, hs.uncancelled, rfl, rfl, rfl, hlink, rfl⟩
  · refine ⟨_, mem_setPeer_self, rfl, ?_⟩
    exact ⟨.inr rfl, rfl, hs.uncancelled, rfl, rfl, rfl, hlink, rfl⟩

theorem engaged_follow_run (hs : s.Undisturbed client) (hp : p ∈ s.peers) (hname : p.name = peer)
    (h : p.Fresh bytes ended) (hgrants : s.Grants taken peer [.perform (.run peer)]) :
    ∃ p' ∈ (s.follow (.perform (.run peer))).peers, p'.name = peer ∧
      p'.Engaged taken bytes (s.heard peer (.perform (.run peer))) ended ended := by
  subst hname
  have hgranted := hgrants.1 p hp rfl rfl (Flow.isIntroduced_of_nameless h.nameless)
  rw [requests_run hs.distinct hp, hs.uncancelled] at hgranted
  have hengaged := Peer.engaged_run h s.nextFlow hgranted
  rw [← hs.uncancelled] at hengaged
  rw [follow_run hs.distinct hp, heard_of_run hs.distinct hp]
  exact ⟨_, mem_setPeer_self, name_run .., hengaged⟩

theorem engaged_follow_poll {returned : Bool} (hs : s.Undisturbed client) (hp : p ∈ s.peers)
    (hname : p.name = peer) (h : p.Engaged taken bytes lines ended returned)
    (hgrants : s.Grants taken peer [.poll peer]) :
    ∃ p' ∈ (s.follow (.poll peer)).peers, p'.name = peer ∧
      p'.Engaged taken bytes (lines ++ s.heard peer (.poll peer)) ended (returned || ended) := by
  subst hname
  have hgranted := hgrants.1 p hp rfl rfl
  rw [requests_poll hs.distinct hp] at hgranted
  rw [follow_poll hs.distinct hp, heard_of_poll hs.distinct hp]
  exact ⟨_, mem_setPeer_self, name_poll .., Peer.engaged_poll h hgranted fun _ _ _ =>
    hs.isEnded hp⟩

/-- Nothing arrives any more when the far end has ended the stream. -/
theorem received_eq_nil {before after : List Step} (horder : InOrder peer (before ++ after))
    (hends : before.any (Step.ends peer) = true) : ∀ later ∈ after, later.chunk peer = [] := by
  intro later hmem
  obtain ⟨first, hfirst, hended⟩ := List.any_eq_true.1 hends
  exact (List.pairwise_append.1 horder).2.2 first hfirst later hmem hended

/-- A run comes to what arrives before and after it begins. -/
theorem exists_engaged {before after : List Step} (hs : s.Undisturbed client) (hp : p ∈ s.peers)
    (hname : p.name = peer) (h : p.Fresh [] false)
    (hcalm : ∀ step ∈ before ++ after, step.IsCalm peer)
    (hgrants : (s.followAll before).Grants taken peer (.perform (.run peer) :: after))
    (horder : InOrder peer (before ++ after)) :
    ∃ p' ∈ (s.followAll (before ++ .perform (.run peer) :: after)).peers, p'.name = peer ∧
      p'.Engaged taken (received peer (before ++ after))
        (s.heardAll peer (before ++ .perform (.run peer) :: after))
        ((before ++ after).any (Step.ends peer)) (before.any (Step.ends peer)) := by
  obtain ⟨hbefore, hafter⟩ := List.forall_mem_append.1 hcalm
  obtain ⟨hgranted, hgrants'⟩ := hgrants
  obtain ⟨-, horder', -⟩ := List.pairwise_append.1 horder
  obtain ⟨p₁, hp₁, hname₁, hfresh, hnone⟩ := fresh_followAll hs hp hname h hbefore
  rw [List.nil_append, Bool.false_or] at hfresh
  have hs₁ := undisturbed_followAll hs fun step hstep => (hbefore step hstep).1
  obtain ⟨p₂, hp₂, hname₂, hengaged⟩ := engaged_follow_run hs₁ hp₁ hname₁ hfresh ⟨hgranted, trivial⟩
  have hs₂ := undisturbed_follow hs₁ (isQuiet_run peer)
  obtain ⟨p₃, hp₃, hname₃, hengaged'⟩ :=
    engaged_followAll hs₂ hp₂ hname₂ hengaged hafter hgrants' (received_eq_nil horder) horder'
  rw [followAll_append, followAll_cons, heardAll_append, hnone, List.nil_append, heardAll]
  refine ⟨p₃, hp₃, hname₃, ?_⟩
  rw [received, List.flatMap_append, List.any_append]
  exact hengaged'

theorem undisturbed_newServer (name : String) (transform : Transform)
    (nextObject : Formula.ObjectId) (clock : Clock) :
    (ofNode (.newServer name transform nextObject clock)).Undisturbed False where
  distinct := distinct_ofNode _
  uncancelled := rfl
  node := .inl ⟨_, _, _, balanced_newServer name transform nextObject clock⟩

theorem isQuiet_of_opening {opening : Step}
    (h : opening = .perform (.openFlow peer) ∨ opening = .perform (.openConnection peer)) :
    opening.IsQuiet := by
  rcases h with rfl | rfl <;> exact ⟨(nomatch ·), (nomatch ·)⟩

/-- A run that has returned is over. -/
theorem outcome_of_engaged {steps : List Step} (hs : (s.followAll steps).Distinct)
    (hp : p ∈ (s.followAll steps).peers) (hname : p.name = peer)
    (h : p.Engaged taken bytes (s.heardAll peer steps) ended true) :
    s.outcome peer steps = some (conversation taken (frames bytes)) := by
  cases h with
  | running hreturned => cases hreturned
  | settled _ hresult hall =>
    have hconversation := hall [] fun _ => rfl
    rw [List.append_nil] at hconversation
    rw [outcome, ← hname, peer?_of_mem hs hp, Option.bind_some, hresult, Option.map_some, hname,
      hconversation]

/-- A run that goes on once behind the end of the stream comes to what has arrived. -/
theorem outcome_of_grants {before during rest : List Step} (hs : s.Undisturbed client)
    (hp : p ∈ s.peers) (hname : p.name = peer) (hfresh : p.Fresh [] false)
    (hcalm : ∀ step ∈ before ++ during ++ rest, step.IsCalm peer)
    (hgrants : (s.followAll before).Grants taken peer
      ((.perform (.run peer) :: during) ++ .poll peer :: rest))
    (horder : InOrder peer (before ++ during ++ rest))
    (hends : (before ++ during).any (Step.ends peer) = true) :
    s.outcome peer ((before ++ .perform (.run peer) :: during) ++ .poll peer :: rest) =
      some (conversation taken (frames (received peer (before ++ during)))) := by
  obtain ⟨hstart, hrest⟩ := List.forall_mem_append.1 hcalm
  obtain ⟨hordered, horder', -⟩ := List.pairwise_append.1 horder
  have hnothing := received_eq_nil horder hends
  obtain ⟨hgrants₁, hgrants₂⟩ := grants_append.1 hgrants
  rw [← followAll_append] at hgrants₂
  obtain ⟨p₁, hp₁, hname₁, hengaged₁⟩ :=
    exists_engaged hs hp hname hfresh hstart hgrants₁ hordered
  have hs₁ : (s.followAll (before ++ .perform (.run peer) :: during)).Undisturbed client := by
    obtain ⟨hbefore, hduring⟩ := List.forall_mem_append.1 hstart
    refine undisturbed_followAll hs (List.forall_mem_append.2 ⟨?_, ?_⟩)
    · exact fun step hstep => (hbefore step hstep).1
    · exact List.forall_mem_cons.2 ⟨isQuiet_run peer, fun step hstep => (hduring step hstep).1⟩
  obtain ⟨hgranted, hgrants₃⟩ := hgrants₂
  obtain ⟨p₂, hp₂, hname₂, hengaged₂⟩ :=
    engaged_follow_poll hs₁ hp₁ hname₁ hengaged₁ ⟨hgranted, trivial⟩
  rw [hends, Bool.or_true] at hengaged₂
  have hs₂ := undisturbed_follow hs₁ (isQuiet_poll peer)
  obtain ⟨p₃, hp₃, hname₃, hengaged₃⟩ :=
    engaged_followAll hs₂ hp₂ hname₂ hengaged₂ hrest hgrants₃ (fun _ => hnothing) horder'
  have hnone : received peer rest = [] := List.flatMap_eq_nil_iff.2 hnothing
  have hs₃ := undisturbed_followAll hs₂ fun step hstep => (hrest step hstep).1
  rw [hnone, List.append_nil, List.append_assoc, ← heardAll, ← heardAll_append] at hengaged₃
  rw [← followAll_cons, ← followAll_append] at hp₃ hs₃
  exact outcome_of_engaged hs₃.distinct hp₃ hname₃ hengaged₃

end Conversations

end Session

end Parley.Chat
