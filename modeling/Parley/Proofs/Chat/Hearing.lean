import Parley.Proofs.Chat.Greeting
import Parley.Proofs.Chat.Running

/-!
# What a run hears

The bytes from the far end decide what a run comes to: the first frame has to be the
signature, the second one gives the name, and each one behind them gives a line. However
the bytes are cut into chunks, and however far the run gets with each of them, it comes to
the same. Only a client may have no queue for the flow, when another one has taken the typed
lines; then the run hears no lines.

- `Outcome`, `conversation`: what a run comes to, by the frames from the far end.
- `Node.Offers`, `Node.Grants`: whether a node has a queue for a flow that asks for one.
- `Flow.Hears`: a run that waits, between the bytes it has taken and those still to come.
- `Flow.Heard`: what going on with a run comes to.
- `Flow.heard_start`, `Flow.heard_poll`: a run that begins and one that goes on.
-/

namespace Parley.Chat

open Wire

/-! ## Outcomes -/

/-- What a run comes to. -/
structure Outcome where
  /-- The name of the far end. -/
  name : Option String
  /-- The lines handed on to the node, each with the name of its sender. -/
  lines : List (String × String)
  result : FlowResult

/-- What the frames behind the names come to, where the queue of the flow is `taken` by another
one or is its own. -/
def chat (taken : Bool) (name : String) (events : List FrameEvent) : Outcome :=
  if taken then ⟨some name, [], .error .inputUnavailable⟩
  else ⟨some name, (spoken events).map (name, ·), .ok ()⟩

/-- What the frames behind the signature come to. -/
def introduction (taken : Bool) : List FrameEvent → Outcome
  | .ok payload :: events => chat taken (Text.Utf8.decodeLossy payload) events
  | _ => ⟨none, [], .error (.handshake .missingName)⟩

/-- What the frames from the far end come to. -/
def conversation (taken : Bool) : List FrameEvent → Outcome
  | .ok payload :: events =>
    if payload = signature then introduction taken events
    else ⟨none, [], .error (.handshake .signatureMismatch)⟩
  | _ => ⟨none, [], .error (.handshake .missingSignature)⟩

/-- Without a frame in front, no frame comes first. -/
theorem frames_ne_cons_of_stop {unread : Bytes} {ended : Bool}
    (hcut : ∀ payload rest, cutFrame unread ≠ some (.ok payload, rest))
    (hended : cutFrame unread = none → ended = true) {more : Bytes}
    (hmore : ended = true → more = []) (payload : Bytes) (events : List FrameEvent) :
    frames (unread ++ more) ≠ .ok payload :: events := by
  match h : cutFrame unread with
  | some (.ok payload', rest) => exact absurd h (hcut payload' rest)
  | some (.error fault, rest) =>
    rw [frames_of_cut (cutFrame_append h more)]
    exact fun hcons => nomatch hcons
  | none =>
    rw [hmore (hended h), List.append_nil, frames_of_short h]
    exact fun hcons => nomatch hcons

theorem introduction_of_ne_cons {taken : Bool} {events : List FrameEvent}
    (h : ∀ payload rest, events ≠ .ok payload :: rest) :
    introduction taken events = ⟨none, [], .error (.handshake .missingName)⟩ := by
  match events with
  | [] | .error _ :: _ => rfl
  | .ok payload :: rest => exact absurd rfl (h payload rest)

theorem conversation_of_ne_cons {taken : Bool} {events : List FrameEvent}
    (h : ∀ payload rest, events ≠ .ok payload :: rest) :
    conversation taken events = ⟨none, [], .error (.handshake .missingSignature)⟩ := by
  match events with
  | [] | .error _ :: _ => rfl
  | .ok payload :: rest => exact absurd rfl (h payload rest)

/-! ## Links -/

/-- A link that accepts everything and has not ended in a fault, with the bytes that were
not made into frames yet. -/
structure Awaits (l : Link) (unread : Bytes) (ended : Bool) : Prop where
  tidy : l.Tidy unread
  ended : l.stream.ended = ended
  accepts : l.stream.acceptance = .everything
  flushed : l.writer.queue = []

/-- What half a handshake comes to where everything is accepted. -/
inductive Answers {α : Type} (check : Reception → Except FlowFault α) (unread : Bytes)
    (ended : Bool) : Progress α × Link → Prop
  | frame {payload rest : Bytes} {l : Link} (hcut : cutFrame unread = some (.ok payload, rest))
      (hlink : Awaits l rest ended) :
      Answers check unread ended (.finished (check (.frame payload)), l)
  | stop {reception : Reception} {l : Link}
      (hcut : ∀ payload rest, cutFrame unread ≠ some (.ok payload, rest))
      (hended : cutFrame unread = none → ended = true) (hpayload : reception.payload = [])
      (haccepts : l.stream.acceptance = .everything) :
      Answers check unread ended (.finished (check reception), l)
  | wait {l : Link} (hended : ended = false) (hlink : Awaits l unread ended) :
      Answers check unread ended (.waiting .receiving, l)

theorem Awaits.of_onlyWrites {l l' : Link} {unread : Bytes} {ended : Bool}
    (h : Awaits l unread ended) (hwrites : l.OnlyWrites l') (hempty : l'.writer.queue = []) :
    Awaits l' unread ended where
  tidy := by
    rw [Link.Tidy, hwrites.reader, hwrites.arrivals]
    exact h.tidy
  ended := hwrites.ended.trans h.ended
  accepts := hwrites.acceptance h.accepts
  flushed := hempty

theorem Awaits.of_onlyReads {l l' : Link} {unread rest : Bytes} {ended : Bool}
    (h : Awaits l unread ended) (hreads : l.OnlyReads l') (htidy : l'.Tidy rest) :
    Awaits l' rest ended where
  tidy := htidy
  ended := hreads.ended.trans h.ended
  accepts := hreads.acceptance.trans h.accepts
  flushed := (congrArg Writer.queue hreads.writer).trans h.flushed

/-- A chunk that arrives goes behind all that arrived before. -/
theorem Awaits.arrive {l : Link} {unread : Bytes} {ended : Bool} (h : Awaits l unread ended)
    (chunk : Bytes) : Awaits (l.happen (.arrive chunk)) (unread ++ chunk) ended :=
  ⟨h.tidy.arrive chunk, h.ended, h.accepts, h.flushed⟩

/-- The end of the stream. -/
theorem Awaits.finish {l : Link} {unread : Bytes} {ended : Bool} (h : Awaits l unread ended) :
    Awaits (l.happen .finish) unread true :=
  ⟨h.tidy, rfl, h.accepts, h.flushed⟩

/-- Half a handshake takes the frame at the front of all that arrived. -/
theorem answers_exchangeThen {α : Type} {l : Link} {unread : Bytes} {ended : Bool}
    (h : Awaits l unread ended) {stage : Link.Stage} (hstage : stage ≠ .flushing)
    (payload : Bytes) (check : Reception → Except FlowFault α) :
    Answers check unread ended (exchangeThen payload check stage l) := by
  obtain ⟨l₁, hwrites, hempty, hexchange⟩ :=
    Link.exchange_of_everything h.accepts h.flushed hstage payload
  have hlink := h.of_onlyWrites hwrites hempty
  have hreceive := Link.reads_receive hlink.tidy
  have hreads := l₁.onlyReads_receive
  rw [exchangeThen, hexchange, Link.exchangeReceive]
  rw [hlink.ended] at hreceive
  generalize l₁.receive = received at hreceive hreads ⊢
  obtain ⟨attempt, l₂⟩ := received
  cases hreceive with
  | frame hcut htidy => exact .frame hcut (hlink.of_onlyReads hreads htidy)
  | stop hcut hended hpayload =>
    exact .stop hcut hended hpayload (hreads.acceptance.trans hlink.accepts)
  | wait _ hended htidy => exact .wait hended (hlink.of_onlyReads hreads htidy)

/-! ## Handshakes -/

namespace HandshakeStage

/-- Where the present half stands. -/
def half : HandshakeStage → Link.Stage
  | .signature stage | .names stage => stage

/-- What the frames still to be taken come to. -/
def outcome (taken : Bool) : HandshakeStage → List FrameEvent → Outcome
  | .signature _ => conversation taken
  | .names _ => introduction taken

end HandshakeStage

namespace Flow

/-- A run that waits where everything is accepted. The bytes that it has not made into
frames yet and those still to come decide what it comes to. -/
inductive Hears (taken : Bool) (received : Bytes) (heard : List (String × String))
    (ended : Bool) (f : Flow) : Phase → Prop
  | handshaking {stage : HandshakeStage} {rest : Bytes} (hopen : f.cancelled = false)
      (hlink : Awaits f.link rest ended) (hstage : stage.half ≠ .flushing)
      (hnameless : f.remoteName = none) (hheard : heard = [])
      (hrest : ∀ more, conversation taken (frames (received ++ more)) =
        stage.outcome taken (frames (rest ++ more))) :
      Hears taken received heard ended f (.handshaking stage)
  | pumping {outbox : Outbox} {receiving : ReceiveStage} {rest : Bytes} {sender : String}
      (hopen : f.cancelled = false) (hlink : Awaits f.link rest ended)
      (hname : f.remoteName = some sender)
      (hrest : ∀ more, conversation taken (frames (received ++ more)) =
        ⟨some sender, heard ++ (spoken (frames (rest ++ more))).map (sender, ·), .ok ()⟩) :
      Hears taken received heard ended f (.pumping outbox .idle receiving)

section Arriving

variable {taken : Bool} {received : Bytes} {heard : List (String × String)} {ended : Bool}
  {f : Flow} {phase : Phase}

/-- What arrives while a run waits is part of what was to come. -/
theorem Hears.arrive (h : f.Hears taken received heard ended phase) (chunk : Bytes) :
    Hears taken (received ++ chunk) heard ended { f with link := f.link.happen (.arrive chunk) }
      phase := by
  cases h with
  | handshaking hopen hlink hstage hnameless hheard hrest =>
    refine .handshaking hopen (hlink.arrive chunk) hstage hnameless hheard fun more => ?_
    rw [List.append_assoc, List.append_assoc, hrest]
  | pumping hopen hlink hname hrest =>
    refine .pumping hopen (hlink.arrive chunk) hname fun more => ?_
    rw [List.append_assoc, List.append_assoc, hrest]

theorem Hears.finish (h : f.Hears taken received heard ended phase) :
    Hears taken received heard true { f with link := f.link.happen .finish } phase := by
  cases h with
  | handshaking hopen hlink hstage hnameless hheard hrest =>
    exact .handshaking hopen hlink.finish hstage hnameless hheard hrest
  | pumping hopen hlink hname hrest => exact .pumping hopen hlink.finish hname hrest

end Arriving

/-- What a handshake comes to where everything is accepted. -/
inductive Shaken (taken : Bool) (received : Bytes) (ended : Bool) : HandshakeProgress × Flow → Prop
  | waiting {stage : HandshakeStage} {f : Flow} (hended : ended = false)
      (hhears : f.Hears taken received [] ended (.handshaking stage)) :
      Shaken taken received ended (.waiting stage, f)
  | failed {fault : FlowFault} {f : Flow} (haccepts : f.link.stream.acceptance = .everything)
      (hnameless : f.remoteName = none)
      (hall : ∀ more, (ended = true → more = []) →
        conversation taken (frames (received ++ more)) = ⟨none, [], .error fault⟩) :
      Shaken taken received ended (.finished (.error fault), f)
  | introduced {f : Flow} {rest : Bytes} {sender : String} (hopen : f.cancelled = false)
      (hlink : Awaits f.link rest ended) (hname : f.remoteName = some sender)
      (hrest : ∀ more, conversation taken (frames (received ++ more)) =
        chat taken sender (frames (rest ++ more))) :
      Shaken taken received ended (.finished (.ok ()), f)

variable {taken : Bool} {received rest : Bytes} {heard : List (String × String)} {ended : Bool}
  {f : Flow} {n : Node}

theorem checkName_frame {payload : Bytes} (h : payload ≠ []) :
    checkName (.frame payload) = .ok (Text.Utf8.decodeLossy payload) :=
  if_neg (by
    show ¬(Text.Utf8.decodeLossy payload).isEmpty = true
    rw [isEmpty_decodeLossy h]
    decide)

theorem checkName_of_payload {reception : Reception} (h : reception.payload = []) :
    checkName reception = .error (.handshake .missingName) := by
  refine if_pos ?_
  rw [Reception.text, h]
  rfl

theorem checkSignature_frame {own payload : Bytes} (h : payload ≠ []) :
    checkSignature own (.frame payload) =
      if payload = own then .ok () else .error (.handshake .signatureMismatch) := by
  have hempty : payload.isEmpty = false := by
    cases payload with
    | nil => exact absurd rfl h
    | cons b bytes => rfl
  unfold checkSignature
  rw [Reception.payload, hempty, if_neg (by decide), ite_not]

theorem checkSignature_of_payload {reception : Reception} (h : reception.payload = []) :
    checkSignature signature reception = .error (.handshake .missingSignature) := by
  refine if_pos ?_
  rw [h]
  rfl

theorem offering_ne_flushing : Link.Stage.offering ≠ .flushing := by simp

theorem receiving_ne_flushing : Link.Stage.receiving ≠ .flushing := by simp

/-- The second frame gives the name. -/
theorem shaken_names {stage : Link.Stage} (hopen : f.cancelled = false)
    (hlink : Awaits f.link rest ended) (hstage : stage ≠ .flushing)
    (hnameless : f.remoteName = none)
    (hrest : ∀ more, conversation taken (frames (received ++ more)) =
      introduction taken (frames (rest ++ more))) (ownName : String) :
    Shaken taken received ended (f.names ownName stage) := by
  have hanswers := answers_exchangeThen hlink hstage (Text.Utf8.encode ownName) checkName
  unfold names
  rw [exchangeNames]
  generalize exchangeThen (Text.Utf8.encode ownName) checkName stage f.link = result
    at hanswers ⊢
  cases hanswers with
  | @frame payload rest' l hcut hlink' =>
    rw [checkName_frame (payload_ne_nil_of_cutFrame hcut)]
    refine .introduced hopen hlink' rfl fun more => ?_
    rw [hrest more, frames_of_cut (cutFrame_append hcut more)]
    rfl
  | stop hcut hended hpayload haccepts =>
    rw [checkName_of_payload hpayload]
    refine .failed haccepts hnameless fun more hmore => ?_
    rw [hrest more, introduction_of_ne_cons (frames_ne_cons_of_stop hcut hended hmore)]
  | wait hended hlink' =>
    exact .waiting hended (.handshaking hopen hlink' receiving_ne_flushing hnameless rfl hrest)

/-- The first frame has to be the signature. -/
theorem shaken_shake {stage : HandshakeStage}
    (h : f.Hears taken received [] ended (.handshaking stage)) (ownName : String) :
    Shaken taken received ended (f.shake ownName stage) := by
  cases h with
  | @handshaking _ rest hopen hlink hstage hnameless hheard hrest =>
    cases stage with
    | names stage => exact shaken_names hopen hlink hstage hnameless hrest ownName
    | signature stage =>
      replace hstage : stage ≠ .flushing := hstage
      have hanswers := answers_exchangeThen hlink hstage signature (checkSignature signature)
      rw [shake, exchangeSignature]
      generalize exchangeThen signature (checkSignature signature) stage f.link = result
        at hanswers ⊢
      cases hanswers with
      | @frame payload rest' l hcut hlink' =>
        -- The frame is compared before it is known whether a name will follow.
        have hconversation : ∀ more, conversation taken (frames (received ++ more)) =
            if payload = signature then introduction taken (frames (rest' ++ more))
            else ⟨none, [], .error (.handshake .signatureMismatch)⟩ := by
          intro more
          rw [hrest more, frames_of_cut (cutFrame_append hcut more)]
          rfl
        rw [checkSignature_frame (payload_ne_nil_of_cutFrame hcut)]
        by_cases hsame : payload = signature
        case pos =>
          simp only [if_pos hsame] at hconversation ⊢
          exact shaken_names (f := { f with link := l, validated := true }) hopen hlink'
            offering_ne_flushing hnameless hconversation ownName
        case neg =>
          simp only [if_neg hsame] at hconversation ⊢
          exact .failed hlink'.accepts hnameless fun more _ => hconversation more
      | stop hcut hended hpayload haccepts =>
        rw [checkSignature_of_payload hpayload]
        refine .failed haccepts hnameless fun more hmore => (hrest more).trans ?_
        exact conversation_of_ne_cons (frames_ne_cons_of_stop hcut hended hmore)
      | wait hended hlink' =>
        exact .waiting hended (.handshaking hopen hlink' receiving_ne_flushing hnameless rfl hrest)

end Flow

/-- A node has a queue for a flow, and keeps it open; or it has none, since what it had was
`taken`. -/
def Node.Offers (taken : Bool) (n : Node) (id : FlowId) : Prop :=
  match n.openOutbox id with
  | (.ok outbox, n') => taken = false ∧ n'.isEnded outbox = false
  | (.error fault, _) => taken = true ∧ fault = .inputUnavailable

/-- If the first request is for a queue, the node offers one, or it was `taken`. -/
def Node.Grants (taken : Bool) (n : Node) (requests : List Request) : Prop :=
  ∀ id rest, requests = .openOutbox id :: rest → n.Offers taken id

/-! ## Runs -/

namespace Flow

variable {taken : Bool} {received rest : Bytes} {heard : List (String × String)} {ended : Bool}
  {f : Flow} {n : Node}

/-- The lines among requests that are handed on, each with its sender. -/
def consumed (requests : List Request) : List (String × String) :=
  requests.filterMap fun
    | .consume sender line => some (sender, line)
    | _ => none

theorem consumed_append (requests more : List Request) :
    consumed (requests ++ more) = consumed requests ++ consumed more :=
  List.filterMap_append

theorem consumed_consumeAll {sender : String} (h : f.remoteName = some sender)
    (lines : List String) : consumed (f.consumeAll lines) = lines.map (sender, ·) := by
  rw [consumed, consumeAll, h, List.filterMap_map]
  exact congrFun (List.filterMap_eq_map (f := fun line => (sender, line))) lines

/-- What going on with a run comes to where everything is accepted. -/
inductive Heard (taken : Bool) (received : Bytes) (heard : List (String × String))
    (ended : Bool) : RunProgress × Flow × List Request → Prop
  | waiting {phase : Phase} {f : Flow} {requests : List Request} (hended : ended = false)
      (hhears : f.Hears taken received (heard ++ consumed requests) ended phase) :
      Heard taken received heard ended (.waiting phase, f, requests)
  | finished {result : FlowResult} {f : Flow} {requests : List Request}
      (hall : ∀ more, (ended = true → more = []) →
        conversation taken (frames (received ++ more)) =
          ⟨f.remoteName, heard ++ consumed requests, result⟩) :
      Heard taken received heard ended (.finished result, f, requests)

/-- Behind the end of the stream a run does not wait. -/
theorem ended_of_waiting {l : Link} (hlink : Awaits l rest ended)
    {receiving receiving' : ReceiveStage} {lines : List String} {l' : Link}
    (h : pumpIn receiving l = (.waiting receiving', lines, l')) :
    ended = false := by
  cases hended : ended with
  | false => rfl
  | true =>
    obtain ⟨lines', l'', hfinished⟩ :=
      pumpIn_of_ended hlink.tidy (hlink.ended.trans hended) receiving
    cases h.symm.trans hfinished

/-- Going on with both directions takes the lines that have arrived. -/
theorem heard_converse {outbox : Outbox} {sending : SendStage} {receiving : ReceiveStage}
    (h : f.Hears taken received heard ended (.pumping outbox sending receiving))
    (hoffers : n.isEnded outbox = false) :
    Heard taken received heard ended (f.converse outbox sending receiving n) ∧
      (f.converse outbox sending receiving n).2.1.link.stream.acceptance = .everything := by
  cases h with
  | @pumping _ _ rest sender hopen hlink hname hrest =>
    have hready : SendStage.idle.Ready f.link := hlink.flushed
    -- All lines of the queue are sent, so that the run can only wait for what arrives.
    have hidle : (pumpOut false .idle (n.pending outbox) f.link).1 = .waiting .idle :=
      pumpOut_of_everything hready hlink.accepts
    rcases hout : pumpOut false .idle (n.pending outbox) f.link with ⟨sent, left, l⟩
    obtain ⟨taken, hsends⟩ := pumpOut_spec hready hout
    obtain rfl : sent = .waiting .idle := by rwa [hout] at hidle
    have hlink' := hlink.of_onlyWrites hsends.writes (hsends.ready .idle rfl)
    have hhears := hearsLines_receiveLines (l.available + 1) hlink'.tidy receiving
    have hreads := onlyReads_pumpIn receiving l
    unfold converse
    rw [if_neg (by rw [hopen]; decide), hoffers, hout]
    dsimp only
    rw [hlink'.ended] at hhears
    change HearsLines rest ended (pumpIn receiving l) at hhears
    have hwait : ∀ receiving' lines l', pumpIn receiving l = (.waiting receiving', lines, l') →
        ended = false := fun _ _ _ => ended_of_waiting hlink'
    generalize pumpIn receiving l = received at hhears hreads hwait ⊢
    obtain ⟨stopped, lines, l'⟩ := received
    have haccepts : l'.stream.acceptance = .everything := hreads.acceptance.trans hlink'.accepts
    have hconsumed : consumed (.setPending outbox left :: f.consumeAll lines) =
        lines.map (sender, ·) := consumed_consumeAll hname lines
    cases hhears with
    | @wait receiving' _ rest' _ hspoken _ htidy =>
      refine ⟨.waiting (hwait receiving' lines l' rfl) ?_, haccepts⟩
      refine .pumping hopen (hlink'.of_onlyReads hreads htidy) hname fun more => ?_
      rw [hrest more, hspoken more, hconsumed, List.map_append, List.append_assoc]
    | stop hspoken =>
      refine ⟨.finished fun more hmore => ?_, haccepts⟩
      rw [hrest more, hspoken more hmore, hconsumed]
      exact congrArg (Outcome.mk · _ _) hname.symm

/-- A run that is over keeps what it has heard. -/
theorem heard_conclude {result : FlowResult} {requests : List Request}
    (haccepts : f.link.stream.acceptance = .everything)
    (hall : ∀ more, (ended = true → more = []) →
      conversation taken (frames (received ++ more)) =
        ⟨f.remoteName, heard ++ consumed requests, result⟩) :
    Heard taken received heard ended ((f.conclude result).1, (f.conclude result).2, requests) := by
  obtain ⟨f', hconclude, hends⟩ := conclude_of_everything haccepts result
  rw [hconclude]
  refine .finished fun more hmore => ?_
  rw [hends.remoteName]
  exact hall more hmore

theorem heard_pump {outbox : Outbox} {sending : SendStage} {receiving : ReceiveStage}
    (h : f.Hears taken received heard ended (.pumping outbox sending receiving))
    (hoffers : n.isEnded outbox = false) :
    Heard taken received heard ended (f.pump outbox sending receiving n) := by
  obtain ⟨hconverse, haccepts⟩ := heard_converse h hoffers
  have hclosed : ∀ requests, consumed (requests ++ [.closeOutbox outbox]) = consumed requests := by
    intro requests
    rw [consumed_append]
    exact List.append_nil _
  unfold pump
  generalize f.converse outbox sending receiving n = result at hconverse haccepts ⊢
  cases hconverse with
  | waiting hended hhears => exact .waiting hended hhears
  | finished hall => exact heard_conclude haccepts (by rwa [hclosed])

theorem Heard.of_consumed_eq {progress : RunProgress} {requests requests' : List Request}
    (h : Heard taken received heard ended (progress, f, requests))
    (heq : consumed requests' = consumed requests) :
    Heard taken received heard ended (progress, f, requests') := by
  cases h with
  | waiting hended hhears => exact .waiting hended (heq.symm ▸ hhears)
  | finished hall => exact .finished (heq.symm ▸ hall)

/-- A flow that becomes active asks for its queue, and takes the lines that have arrived. -/
theorem heard_activate {sender : String} (hopen : f.cancelled = false)
    (hlink : Awaits f.link rest ended) (hname : f.remoteName = some sender)
    (hrest : ∀ more, conversation taken (frames (received ++ more)) =
      chat taken sender (frames (rest ++ more)))
    (hgrants : n.Grants taken (f.activate n).2.2) :
    Heard taken received [] ended (f.activate n) := by
  unfold activate at hgrants ⊢
  dsimp only at hgrants ⊢
  rcases hopenOutbox : n.openOutbox f.id with ⟨fault | outbox, n'⟩
  · rw [hopenOutbox] at hgrants
    have hoffers := hgrants _ _ rfl
    rw [Node.Offers, hopenOutbox] at hoffers
    obtain ⟨rfl, rfl⟩ : taken = true ∧ fault = .inputUnavailable := hoffers
    refine heard_conclude (f := { f with state := .active }) hlink.accepts fun more _ => ?_
    rw [hrest more, hname]
    rfl
  · rw [hopenOutbox] at hgrants
    have hoffers := hgrants _ _ rfl
    rw [Node.Offers, hopenOutbox] at hoffers
    obtain ⟨rfl, hended⟩ : taken = false ∧ n'.isEnded outbox = false := hoffers
    have hhears : Hears false received [] ended { f with state := .active }
        (.pumping outbox .idle .probing) := .pumping hopen hlink hname hrest
    exact (heard_pump hhears hended).of_consumed_eq rfl

theorem heard_afterHandshake {progress : HandshakeProgress}
    (h : Shaken taken received ended (progress, f))
    (hgrants : n.Grants taken (f.afterHandshake progress n).2.2) :
    Heard taken received [] ended (f.afterHandshake progress n) := by
  cases h with
  | waiting hended hhears => exact .waiting hended hhears
  | failed haccepts hnameless hall =>
    refine heard_conclude haccepts fun more hmore => ?_
    rw [hall more hmore, hnameless]
    rfl
  | introduced hopen hlink hname hrest => exact heard_activate hopen hlink hname hrest hgrants

/-- A flow that has exchanged nothing begins with the signature. -/
theorem beginHandshake_eq (hunvalidated : f.validated = false) (hboth : f.holding = .both)
    (ownName : String) : f.beginHandshake ownName = f.shake ownName (.signature .offering) := by
  have hstranger : f.isIntroduced = false := by
    rw [isIntroduced, hunvalidated]
    rfl
  have hheld : f.isDisposed = false := by
    rw [isDisposed, hboth]
    rfl
  unfold beginHandshake firstStage
  rw [hstranger, hheld, hunvalidated]
  rfl

/-- The handshake of a run, and what comes of it. -/
theorem heard_shake {stage : HandshakeStage}
    (h : f.Hears taken received [] ended (.handshaking stage))
    (hgrants : n.Grants taken
      ((f.shake n.name stage).2.afterHandshake (f.shake n.name stage).1 n).2.2) :
    Heard taken received [] ended
      ((f.shake n.name stage).2.afterHandshake (f.shake n.name stage).1 n) := by
  have hshaken := shaken_shake h n.name
  generalize f.shake n.name stage = result at hshaken hgrants ⊢
  obtain ⟨progress, f'⟩ := result
  exact heard_afterHandshake hshaken hgrants

/-- A run begins with the handshake. -/
theorem heard_start (hcreated : f.state = .created) (hopen : f.cancelled = false)
    (hlink : Awaits f.link received ended) (hunvalidated : f.validated = false)
    (hnameless : f.remoteName = none) (hboth : f.holding = .both)
    (hgrants : n.Grants taken (f.start n).2.2) :
    Heard taken received [] ended (f.start n) := by
  have hbegin : beginHandshake n.name { f with state := .handshaking } =
      shake n.name (.signature .offering) { f with state := .handshaking } :=
    beginHandshake_eq (f := { f with state := .handshaking }) hunvalidated hboth n.name
  have hhears : Hears taken received [] ended { f with state := .handshaking }
      (.handshaking (.signature .offering)) :=
    .handshaking hopen hlink offering_ne_flushing hnameless rfl fun _ => rfl
  have hstart : f.start n =
      (shake n.name (.signature .offering) { f with state := .handshaking }).2.afterHandshake
        (shake n.name (.signature .offering) { f with state := .handshaking }).1 n := by
    unfold start
    rw [hcreated]
    dsimp only
    rw [if_neg (by rw [hopen]; decide), hbegin]
  rw [hstart] at hgrants ⊢
  exact heard_shake hhears hgrants

/-- A run goes on. Only one that is at its handshake asks for a queue. -/
theorem heard_poll {phase : Phase} (h : f.Hears taken received heard ended phase)
    (hgrants : f.isIntroduced = false → n.Grants taken (f.poll phase n).2.2)
    (hpending : ∀ outbox sending receiving, phase = .pumping outbox sending receiving →
      n.isEnded outbox = false) :
    Heard taken received heard ended (f.poll phase n) := by
  cases phase with
  | pumping outbox sending receiving => exact heard_pump h (hpending outbox sending receiving rfl)
  | closing => cases h
  | handshaking stage =>
    have hhears := h
    cases h with
    | handshaking hopen _ _ hnameless hheard =>
      subst hheard
      have hpoll : f.poll (.handshaking stage) n =
          (f.shake n.name stage).2.afterHandshake (f.shake n.name stage).1 n := by
        show f.pollHandshake stage n = _
        unfold pollHandshake
        rw [if_neg (by rw [hopen]; decide)]
      have hgrants := hgrants (isIntroduced_of_nameless hnameless)
      rw [hpoll] at hgrants ⊢
      exact heard_shake hhears hgrants

end Flow

end Parley.Chat
