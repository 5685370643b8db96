import Parley.Proofs.Chat.Handles
import Parley.Proofs.Formula.Replies

/-!
# Answers of a formula server

A server that evaluates formulas answers each line that one of its flows receives with one line,
which goes into every queue that is open and has a route. The line is not empty, so that sending
does not skip it.

- `NeverSkipped`, `neverSkipped`: sending writes a frame for every line that is not empty.
- `Flow.readLines`, `Flow.consumed_pump`: the lines that a run receives, and hands on.
- `Request.IsSpoken`, `Session.Turn.isSpoken`: no flow hands an empty line on.
- `Router.Passes`, `Router.passes_broadcast`: a line goes into every open queue once.
- `Session.answers_of_followAll`: what becomes of the lines that flows receive.
-/

namespace Parley.Chat

open Wire

/-! ## Sending -/

/-- Wherever the line stands in a queue, its frame is written behind those of the lines before it
once sending has gone past it. -/
def NeverSkipped (line : String) : Prop :=
  ∀ (ended : Bool) (stage : SendStage) (l : Link), stage.Ready l →
    ∀ before after sent left l',
      pumpOut ended stage (before ++ line :: after) l = (sent, left, l') →
      left.length ≤ after.length →
      ∃ more, l'.out =
        l.out ++ frameLines before ++ frameOf (Text.Utf8.encode line) ++ frameLines more

/-- What is taken from the front of a queue contains all that does not stay behind. -/
theorem exists_eq_append_cons_of_length_le {α : Type} {a : α} {before after taken left : List α}
    (h : before ++ a :: after = taken ++ left) (hleft : left.length ≤ after.length) :
    ∃ more, taken = before ++ a :: more := by
  rcases List.append_eq_append_iff.1 h with ⟨more, htaken, hrest⟩ | ⟨more, -, rfl⟩
  · cases more with
    | nil =>
      rw [List.nil_append] at hrest
      rw [← hrest] at hleft
      exact absurd hleft (Nat.not_succ_le_self _)
    | cons b more =>
      obtain ⟨rfl, -⟩ := List.cons.inj hrest
      exact ⟨more, htaken⟩
  · rw [List.length_append, List.length_cons] at hleft
    omega

theorem neverSkipped {line : String} (h : line ≠ "") : NeverSkipped line := by
  intro ended stage l hready before after sent left l' hpump hleft
  obtain ⟨taken, hsends⟩ := pumpOut_spec hready hpump
  obtain ⟨more, rfl⟩ := exists_eq_append_cons_of_length_le hsends.lines_eq hleft
  have hline : ¬line.isEmpty = true := fun hempty => h (String.isEmpty_iff.1 hempty)
  refine ⟨more, ?_⟩
  rw [hsends.out, frameLines_append, frameLines_cons hline, List.append_assoc, List.append_assoc]

/-! ## Receiving -/

theorem ne_empty_of_nextLine {stage : ReceiveStage} {l l' : Link} {line : String}
    (h : nextLine stage l = (.ok line, l')) : line ≠ "" := by
  have hread : ∀ {l : Link}, readLine l = (.ok line, l') → line ≠ "" := by
    intro l h
    unfold readLine at h
    split at h
    case h_1 => cases h
    case h_2 reception _ _ =>
      split at h
      case isTrue => cases h
      case isFalse hempty =>
        cases h
        exact fun heq => hempty (String.isEmpty_iff.2 heq)
  cases stage with
  | reading => exact hread h
  | probing =>
    change probeLine l = _ at h
    unfold probeLine at h
    rcases hdata : l.awaitData with ⟨_ | _ | _ | _, l₁⟩ <;> rw [hdata] at h
    · cases h
    · cases h
    · cases h
    · exact hread h

/-- An empty line ends the receiving of lines, and is none of them. -/
theorem ne_empty_of_mem_receiveLines {room : Nat} {stage : ReceiveStage} {l : Link}
    {line : String} (h : line ∈ (receiveLines room stage l).2.1) : line ≠ "" := by
  induction room generalizing stage l with
  | zero => cases h
  | succ room ih =>
    rw [receiveLines_succ] at h
    rcases hnext : nextLine stage l with ⟨_ | first, l'⟩ <;> rw [hnext] at h
    · cases h
    · rcases List.mem_cons.1 h with rfl | h
      · exact ne_empty_of_nextLine hnext
      · exact ih h

/-- If a line is handed on, it is not empty. -/
def Request.IsSpoken : Request → Prop
  | .consume _ line => line ≠ ""
  | _ => True

namespace Flow

variable {outbox : Outbox} {sending : SendStage} {receiving : ReceiveStage} {f : Flow} {n : Node}

/-- The lines that are received when a run goes on in both directions. -/
def readLines (outbox : Outbox) (sending : SendStage) (receiving : ReceiveStage) (f : Flow)
    (n : Node) : List String :=
  if f.cancelled then []
  else
    match pumpOut (n.isEnded outbox) sending (n.pending outbox) f.link with
    | (.finished _, _, _) => []
    | (.waiting _, _, link) => (pumpIn receiving link).2.1

theorem ne_empty_of_mem_readLines {line : String}
    (h : line ∈ f.readLines outbox sending receiving n) : line ≠ "" := by
  unfold readLines at h
  split at h
  case isTrue => cases h
  case isFalse =>
    split at h
    case h_1 => cases h
    case h_2 => exact ne_empty_of_mem_receiveLines h

/-- What is asked of the node when a run goes on in both directions. -/
theorem exists_requests_pump (outbox : Outbox) (sending : SendStage) (receiving : ReceiveStage)
    (f : Flow) (n : Node) :
    ∃ taking closing, (f.pump outbox sending receiving n).2.2 =
        taking ++ f.consumeAll (f.readLines outbox sending receiving n) ++ closing ∧
      (taking = [] ∨ ∃ left, taking = [.setPending outbox left]) ∧
      (closing = [] ∨ closing = [.closeOutbox outbox]) := by
  have hconverse : ∃ taking, (f.converse outbox sending receiving n).2.2 =
        taking ++ f.consumeAll (f.readLines outbox sending receiving n) ∧
      (taking = [] ∨ ∃ left, taking = [.setPending outbox left]) := by
    unfold converse readLines
    split
    case isTrue => exact ⟨[], rfl, .inl rfl⟩
    case isFalse =>
      rcases pumpOut (n.isEnded outbox) sending (n.pending outbox) f.link with ⟨_ | _, left, l⟩
      · dsimp only
        rcases pumpIn receiving l with ⟨_ | _, heard, l'⟩ <;>
          exact ⟨[.setPending outbox left], rfl, .inr ⟨left, rfl⟩⟩
      · exact ⟨[.setPending outbox left], rfl, .inr ⟨left, rfl⟩⟩
  obtain ⟨taking, hrequests, htaking⟩ := hconverse
  unfold pump
  rcases hresult : f.converse outbox sending receiving n with ⟨_ | result, f', requests⟩ <;>
    rw [hresult] at hrequests
  · exact ⟨taking, [], by rw [List.append_nil]; exact hrequests, htaking, .inl rfl⟩
  · exact ⟨taking, [.closeOutbox outbox], congrArg (· ++ _) hrequests, htaking, .inr rfl⟩

/-- The lines that are received are handed on, each once. -/
theorem consumed_pump (outbox : Outbox) (sending : SendStage) (receiving : ReceiveStage)
    {sender : String} (h : f.remoteName = some sender) (n : Node) :
    consumed (f.pump outbox sending receiving n).2.2 =
      (f.readLines outbox sending receiving n).map (sender, ·) := by
  obtain ⟨taking, closing, hrequests, htaking, hclosing⟩ :=
    exists_requests_pump outbox sending receiving f n
  have hnone : consumed taking = [] ∧ consumed closing = [] := by
    refine ⟨?_, ?_⟩
    · obtain rfl | ⟨left, rfl⟩ := htaking <;> rfl
    · obtain rfl | rfl := hclosing <;> rfl
  rw [hrequests, consumed_append, consumed_append, consumed_consumeAll h, hnone.1, hnone.2,
    List.nil_append, List.append_nil]

theorem isSpoken_pump (outbox : Outbox) (sending : SendStage) (receiving : ReceiveStage)
    (f : Flow) (n : Node) :
    ∀ request ∈ (f.pump outbox sending receiving n).2.2, request.IsSpoken := by
  obtain ⟨taking, closing, hrequests, htaking, hclosing⟩ :=
    exists_requests_pump outbox sending receiving f n
  have hread : ∀ request ∈ f.consumeAll (f.readLines outbox sending receiving n),
      request.IsSpoken := by
    intro request hrequest
    obtain ⟨line, hline, rfl⟩ := List.mem_map.1 hrequest
    exact ne_empty_of_mem_readLines hline
  rw [hrequests, List.forall_mem_append, List.forall_mem_append]
  refine ⟨⟨?_, hread⟩, ?_⟩
  · obtain rfl | ⟨left, rfl⟩ := htaking
    · exact List.forall_mem_nil _
    · exact List.forall_mem_singleton.2 trivial
  · obtain rfl | rfl := hclosing
    · exact List.forall_mem_nil _
    · exact List.forall_mem_singleton.2 trivial

theorem isSpoken_activate (f : Flow) (n : Node) :
    ∀ request ∈ (f.activate n).2.2, request.IsSpoken := by
  unfold activate
  dsimp only
  split
  case h_1 outbox n' _ =>
    exact List.forall_mem_cons.2 ⟨trivial, isSpoken_pump outbox .idle .probing _ n'⟩
  case h_2 => exact List.forall_mem_singleton.2 trivial

theorem isSpoken_afterHandshake (progress : HandshakeProgress) (f : Flow) (n : Node) :
    ∀ request ∈ (f.afterHandshake progress n).2.2, request.IsSpoken := by
  unfold afterHandshake
  split
  case h_2 => exact f.isSpoken_activate n
  all_goals exact List.forall_mem_nil _

theorem isSpoken_start (f : Flow) (n : Node) : ∀ request ∈ (f.start n).2.2, request.IsSpoken := by
  unfold start
  split
  case h_1 =>
    dsimp only
    split
    case isTrue => exact List.forall_mem_nil _
    case isFalse => exact isSpoken_afterHandshake _ _ n
  all_goals exact List.forall_mem_nil _

theorem isSpoken_poll (phase : Phase) (f : Flow) (n : Node) :
    ∀ request ∈ (f.poll phase n).2.2, request.IsSpoken := by
  unfold poll
  split
  case h_1 stage =>
    unfold pollHandshake
    split
    case isTrue => exact List.forall_mem_nil _
    case isFalse => exact isSpoken_afterHandshake _ _ n
  case h_2 outbox sending receiving => exact isSpoken_pump outbox sending receiving f n
  case h_3 => split <;> exact List.forall_mem_nil _

theorem isSpoken_abandon (phase : Phase) (f : Flow) :
    ∀ request ∈ (f.abandon phase).2, request.IsSpoken := by
  cases phase with
  | pumping => exact List.forall_mem_singleton.2 trivial
  | handshaking | closing => exact List.forall_mem_nil _

end Flow

namespace Session

/-- No flow hands an empty line on. -/
theorem Turn.isSpoken {s : Session} {p p' : Peer} {step : Step} {requests : List Request}
    {next : FlowId} (h : Turn s p step p' requests next) :
    ∀ request ∈ requests, request.IsSpoken := by
  cases h with
  | poll =>
    unfold Peer.poll
    split
    case h_1 phase _ => exact p.flow.isSpoken_poll phase s.node
    case h_2 => exact List.forall_mem_nil _
  | abandon =>
    unfold Peer.abandon
    split
    case h_1 phase _ => exact p.flow.isSpoken_abandon phase
    case h_2 => exact List.forall_mem_nil _
  | run =>
    unfold Peer.run
    split
    case h_1 => exact p.flow.isSpoken_start s.node
    case h_2 =>
      split
      case isTrue => exact List.forall_mem_nil _
      case isFalse => exact Flow.isSpoken_start _ s.node
    case h_3 => exact List.forall_mem_nil _
  | runOnce =>
    have hstart := p.flow.isSpoken_start s.node
    unfold Peer.runOnce
    split
    case h_1 flow requests heq =>
      rw [heq] at hstart
      exact hstart
    case h_2 phase flow requests heq =>
      rw [heq] at hstart
      exact List.forall_mem_append.2 ⟨hstart, flow.isSpoken_abandon phase⟩
  | farEnd | handshake | closeFlow | requestClose | dropFlow | disposeConnection =>
    exact List.forall_mem_nil _

end Session

/-! ## Passing on -/

namespace Router

/-- A line goes into every queue that is open and has a route, once and behind those that wait,
and nothing else changes. -/
structure Passes (r : Router) (line : String) (r' : Router) : Prop where
  routes : r'.routes = r.routes
  isOpen : ∀ number, r'.isOpen number = r.isOpen number
  routed : ∀ route ∈ r.routes, r.isOpen route.2 = true →
    r'.pending route.2 = r.pending route.2 ++ [line]
  others : ∀ number, r.leadsTo number = false → r'.pending number = r.pending number

theorem isOpen_push (line : String) (sub? : Option Subscriber) :
    ((sub?.map (Subscriber.push line)).any fun s => s.queue.isSome) =
      sub?.any fun s => s.queue.isSome := by
  rcases sub? with _ | ⟨id, registered, _ | lines⟩ <;> rfl

theorem passes_broadcast {r : Router} (h : r.WellFormed) (line : String) :
    r.Passes line (r.broadcast line).2 where
  routes := rfl
  isOpen number := by
    rw [isOpen, subscribers_broadcast]
    by_cases hmem : number ∈ r.routes.map Prod.snd
    · rw [getElem?_pushAll_of_mem h.numbers_nodup hmem, isOpen_push]
      rfl
    · rw [getElem?_pushAll_of_notMem hmem]
      rfl
  routed route hroute hopen := by
    rw [pending, subscribers_broadcast,
      getElem?_pushAll_of_mem h.numbers_nodup (List.mem_map_of_mem hroute), pending]
    unfold isOpen at hopen
    rcases hsub : r.subscribers[route.2]? with _ | ⟨id, registered, _ | lines⟩ <;>
      rw [hsub] at hopen
    · cases hopen
    · cases hopen
    · rfl
  others number hnot := by
    have hmem : number ∉ r.routes.map Prod.snd := by
      intro hmem
      obtain ⟨route, hroute, rfl⟩ := List.mem_map.1 hmem
      have hleads := List.any_eq_false.1 hnot route hroute
      exact hleads (beq_self_eq_true route.2)
    rw [pending, subscribers_broadcast, getElem?_pushAll_of_notMem hmem]
    rfl

end Router

/-! ## Formula servers -/

namespace Node

variable {n : Node}

/-- A server that evaluates formulas. -/
def Evaluates (n : Node) : Prop :=
  ∃ node, n = .server node ∧ node.transform = .formula

theorem Evaluates.isServer (h : n.Evaluates) : n.IsServer := by
  obtain ⟨node, rfl, -⟩ := h
  trivial

theorem evaluates_serve (h : n.Evaluates) (request : Request) : (n.serve request).Evaluates := by
  obtain ⟨node, rfl, hformula⟩ := h
  rcases request with _ | ⟨_ | _, _⟩ | ⟨_ | _⟩ | ⟨_, _⟩ | _ <;> exact ⟨_, rfl, hformula⟩

theorem evaluates_serveAll (h : n.Evaluates) (requests : List Request) :
    (n.serveAll requests).Evaluates := by
  induction requests generalizing n with
  | nil => exact h
  | cons request requests ih => exact ih (evaluates_serve h request)

/-- A line is answered with one line, which shows its result, goes to all flows and is never
skipped. -/
structure Answered (line reply : String) (n n' : Node) : Prop where
  tells : ∃ node, n = .server node ∧
    Formula.Tells line (Formula.parse [] line node.nextObject).1 reply
  passes : n.router.Passes reply n'.router
  sent : NeverSkipped reply

theorem exists_answered (h : n.Evaluates) (hwf : n.router.WellFormed) (sender line : String) :
    ∃ reply, Answered line reply n (n.serve (.consume sender line)) := by
  obtain ⟨node, rfl, hformula⟩ := h
  have htells : Formula.Tells line (Formula.parse [] line node.nextObject).1
      (node.transform.apply node.clock.now node.nextObject sender line).1 := by
    rw [hformula]
    exact Formula.tells_replyLine line node.nextObject
  exact ⟨_, ⟨node, rfl, htells⟩, Router.passes_broadcast hwf _, neverSkipped htells.ne_empty⟩

end Node

namespace Session

variable {name : String} {s : Session}

/-- Whatever happens in the session of a server, its node only does what it is asked. -/
theorem exists_serveAll_follow (h : s.node.IsServer) (step : Step) :
    ∃ requests, (s.follow step).node = s.node.serveAll requests := by
  have heffect := s.effect_follow step
  generalize s.requests step = requests, s.follow step = s' at heffect
  cases heffect with
  | still | openFlow | openConnection | cancel => exact ⟨[], rfl⟩
  | turn => exact ⟨requests, rfl⟩
  | typeLine line => exact ⟨[], Node.typeLine_of_isServer h line⟩
  | endTyping => exact ⟨[], Node.endTyping_of_isServer h⟩
  | closeConsole => exact ⟨[], Node.closeConsole_of_isServer h⟩
  | broadcast line => exact ⟨[.broadcast line], rfl⟩
  | consume sender line => exact ⟨[.consume sender line], rfl⟩
  | openOutbox key => exact (s.samePeers_openOutbox key).node
  | nextLine key => exact (s.samePeers_nextLine key).node
  | closeOutbox key => exact (s.samePeers_closeOutbox key).node

theorem evaluates_followAll (h : s.node.Evaluates) (hwf : s.node.router.WellFormed)
    (steps : List Step) :
    (s.followAll steps).node.Evaluates ∧ (s.followAll steps).node.router.WellFormed := by
  induction steps generalizing s with
  | nil => exact ⟨h, hwf⟩
  | cons step steps ih =>
    obtain ⟨requests, hnode⟩ := exists_serveAll_follow h.isServer step
    rw [followAll_cons]
    refine ih ?_ ?_ <;> rw [hnode]
    · exact Node.evaluates_serveAll h requests
    · exact Node.wellFormed_serveAll hwf requests

/-- A run whose flow is active sends and receives lines. -/
theorem Steady.exists_pumping (h : s.Steady name) {p : Peer} (hp : p ∈ s.peers) {phase : Phase}
    (hactive : p.flow.state = .active) (hrunning : p.presence = .running phase) :
    ∃ outbox sending receiving sender, phase = .pumping outbox sending receiving ∧
      p.flow.remoteName = some sender := by
  have hsteady := h.peers p hp
  have hsuits := hsteady.suits
  obtain ⟨sender, hsender⟩ := Option.isSome_iff_exists.1 (hsteady.sound.active hactive)
  rw [hrunning] at hsuits
  cases phase with
  | handshaking stage => cases hactive.symm.trans hsuits.1
  | pumping outbox sending receiving => exact ⟨outbox, sending, receiving, sender, rfl, hsender⟩
  | closing result => cases hactive.symm.trans hsuits.state

/-- When a run goes on, the flow hands on the lines it receives. -/
theorem heard_poll {p : Peer} (hs : s.Distinct) (hp : p ∈ s.peers) {outbox : Outbox}
    {sending : SendStage} {receiving : ReceiveStage} {sender : String}
    (hrunning : p.presence = .running (.pumping outbox sending receiving))
    (hsender : p.flow.remoteName = some sender) :
    s.heard p.name (.poll p.name) =
      (p.flow.readLines outbox sending receiving s.node).map (sender, ·) := by
  have hpoll : (p.poll s.node).2 = (p.flow.pump outbox sending receiving s.node).2.2 := by
    rw [Peer.poll, hrunning]
    rfl
  rw [heard, Step.lines, if_pos rfl, requests_poll hs hp, hpoll]
  exact Flow.consumed_pump outbox sending receiving hsender s.node

/-- A step in which a line is handed on does what is asked, in order, and only from outside an
empty line is handed on. -/
theorem of_requests_eq {step : Step} {before after : List Request} {sender line : String}
    (h : s.requests step = before ++ .consume sender line :: after) :
    (s.follow step).node = s.node.serveAll (s.requests step) ∧
      (step = .perform (.consume sender line) ∨ line ≠ "") := by
  have hmem : .consume sender line ∈ s.requests step := by simp [h]
  have heffect := s.effect_follow step
  generalize s.requests step = requests, s.follow step = s' at heffect hmem ⊢
  cases heffect with
  | turn _ hturn => exact ⟨rfl, .inr (hturn.isSpoken _ hmem)⟩
  | consume sender' line' =>
    obtain ⟨rfl, rfl⟩ := Request.consume.inj (List.mem_singleton.1 hmem)
    exact ⟨rfl, .inl rfl⟩
  | broadcast => cases List.mem_singleton.1 hmem
  | still | openFlow | openConnection | typeLine | endTyping | closeConsole | cancel | openOutbox
  | nextLine | closeOutbox => cases hmem

/-- Every text has one reply, which shows its result. On a formula server, whatever has happened
there, each line that an active flow receives is handed on, and is not empty; each line that is
handed on puts its reply into every queue that is open and has a route, and sending does not skip
it. -/
theorem answers_of_followAll (name : String) (next : Formula.ObjectId) (clock : Clock)
    (steps : List Step) :
    let s := (ofNode (.newServer name .formula next clock)).followAll steps
    (∀ text next,
      Formula.Tells text (Formula.parse [] text next).1 (Formula.replyLine text next).1) ∧
    (∀ text h, Formula.Tells text (Formula.Counted.parse text h).1
      (Formula.Counted.replyLine text h).1) ∧
    (∀ p ∈ s.peers, ∀ phase, p.flow.state = .active → p.presence = .running phase →
      ∃ outbox sending receiving sender, phase = .pumping outbox sending receiving ∧
        s.heard p.name (.poll p.name) =
          (p.flow.readLines outbox sending receiving s.node).map (sender, ·)) ∧
    ∀ step before sender line after,
      s.requests step = before ++ .consume sender line :: after →
        (s.follow step).node = s.node.serveAll (s.requests step) ∧
        (step = .perform (.consume sender line) ∨ line ≠ "") ∧
        ∃ reply, Node.Answered line reply (s.node.serveAll before)
          (s.node.serveAll (before ++ [.consume sender line])) := by
  intro s
  have hsteady : s.Steady _ := steady_followAll (steady_ofNode _) steps
  obtain ⟨hevaluates, hwf⟩ := evaluates_followAll
    (s := ofNode (.newServer name .formula next clock)) ⟨_, rfl, rfl⟩ Router.wellFormed_empty steps
  refine ⟨Formula.tells_replyLine, Formula.Counted.tells_replyLine, ?_, ?_⟩
  · intro p hp phase hactive hrunning
    obtain ⟨outbox, sending, receiving, sender, rfl, hsender⟩ :=
      hsteady.exists_pumping hp hactive hrunning
    exact ⟨outbox, sending, receiving, sender, rfl,
      heard_poll hsteady.distinct hp hrunning hsender⟩
  · intro step before sender line after hrequests
    obtain ⟨hnode, hline⟩ := of_requests_eq hrequests
    refine ⟨hnode, hline, ?_⟩
    rw [Node.serveAll_append]
    exact Node.exists_answered (Node.evaluates_serveAll hevaluates before)
      (Node.wellFormed_serveAll hwf before) sender line

/-- A formula server to which one peer was connected, and said something. -/
def askedSession (line : String) : Session :=
  (ofNode (.newServer "hub" .formula 4 .morning)).followAll
    [.perform (.openFlow "ann"),
      .perform (.farEnd "ann" (.arrive (frameOf signature ++ frameOf (Text.Utf8.encode "ann")))),
      .perform (.run "ann"), .perform (.farEnd "ann" (.arrive (frameOf (Text.Utf8.encode line))))]

/-- A product is received from the one who asks for it, and answered. -/
theorem exists_answered_product :
    ∃ p ∈ (askedSession "6*7").peers, p.flow.state = .active ∧
      (∃ sender, (p.flow.readLines (.subscriber 0) .idle .probing (askedSession "6*7").node).map
        (sender, ·) = [("ann", "6*7")]) ∧
      ∃ reply, Node.Answered "6*7" reply
        ((askedSession "6*7").node.serveAll [.setPending (.subscriber 0) []])
        ((askedSession "6*7").follow (.poll "ann")).node := by
  have hne : (askedSession "6*7").peers ≠ [] := fun h => nomatch h
  have hrequests : (askedSession "6*7").requests (.poll "ann") =
      [.setPending (.subscriber 0) []] ++ .consume "ann" "6*7" :: [] := rfl
  have hactive : ((askedSession "6*7").peers.head hne).flow.state = .active := rfl
  have hrunning : ((askedSession "6*7").peers.head hne).presence =
      .running (.pumping (.subscriber 0) .idle .probing) := rfl
  obtain ⟨-, -, hheard, hanswered⟩ := answers_of_followAll "hub" 4 .morning
    [.perform (.openFlow "ann"),
      .perform (.farEnd "ann" (.arrive (frameOf signature ++ frameOf (Text.Utf8.encode "ann")))),
      .perform (.run "ann"), .perform (.farEnd "ann" (.arrive (frameOf (Text.Utf8.encode "6*7"))))]
  rw [← askedSession] at hheard hanswered
  obtain ⟨hnode, -, reply, hreply⟩ := hanswered (.poll "ann") _ "ann" "6*7" _ hrequests
  obtain ⟨outbox, sending, receiving, sender, hphase, hlines⟩ :=
    hheard _ (List.head_mem hne) _ hactive hrunning
  obtain ⟨rfl, rfl, rfl⟩ := Phase.pumping.inj hphase
  rw [hrequests] at hnode
  rw [← hnode] at hreply
  exact ⟨_, List.head_mem hne, hactive, ⟨sender, hlines.symm.trans rfl⟩, reply, hreply⟩

end Session

end Parley.Chat
