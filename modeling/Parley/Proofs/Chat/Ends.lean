import Parley.Proofs.Chat.Hearing
import Parley.Proofs.Text.RoundTrip
import Parley.Proofs.Wire.Rounds

/-!
# Ends of a handshake

An end exchanges signatures, or has the whole handshake of a flow. Either way it goes through
rounds, in each of which it sends one payload and takes one from the other end. Where it stands
says which bytes it has handed to its writer and which of the other end's it has taken.

- `Script`: what an end is asked to do, and the payloads that it sends.
- `End`: an end, `End.go`: one poll of it.
- `Place`: where an end stands.
- `Standing`: the bytes that belong to a place.
- `Resting`: why an end that was polled does not get further.
- `End.go_spec`: what one poll comes to.
-/

namespace Parley.Chat

open Wire

/-! ## Scripts -/

/-- What an end is asked to do. -/
inductive Script where
  /-- To exchange signatures. -/
  | signature (own : Bytes)
  /-- To have the handshake of a flow. -/
  | handshake (name : String)

namespace Script

/-- The payloads that an end sends, in order. -/
def payloads : Script → List Bytes
  | .signature own => [own]
  | .handshake name => [Chat.signature, Text.Utf8.encode name]

/-- Two ends that do the same, with something to say. -/
inductive Meets : Script → Script → Prop
  | signature {own other : Bytes} (hown : own ≠ []) (hother : other ≠ []) :
      Meets (.signature own) (.signature other)
  | handshake {name other : String} (hname : name ≠ "") (hother : other ≠ "") :
      Meets (.handshake name) (.handshake other)

variable {script peer : Script}

theorem Meets.symm (h : script.Meets peer) : peer.Meets script := by
  cases h with
  | signature hown hother => exact .signature hother hown
  | handshake hname hother => exact .handshake hother hname

theorem Meets.length_eq (h : script.Meets peer) :
    peer.payloads.length = script.payloads.length := by
  cases h <;> rfl

theorem Meets.proper (h : script.Meets peer) : Proper peer.payloads := by
  intro r q hq
  cases h with
  | signature _ hother =>
    match r, hq with
    | 0, rfl => exact ⟨hother, .inr rfl⟩
  | handshake _ hother =>
    match r, hq with
    | 0, rfl => exact ⟨by decide, .inl (by decide)⟩
    | 1, rfl => exact ⟨Text.Utf8.encode_ne_nil hother, .inr rfl⟩

end Script

/-! ## Places -/

/-- Where an end stands. -/
inductive Place where
  | waiting (round : Nat) (stage : Link.Stage)
  | finished

namespace Place

/-- How many payloads were handed to the writer, of so many. -/
def sent (rounds : Nat) : Place → Nat
  | .waiting round .offering => round
  | .waiting round _ => round + 1
  | .finished => rounds

/-- How many payloads were taken from the other end, of so many. -/
def taken (rounds : Nat) : Place → Nat
  | .waiting round _ => round
  | .finished => rounds

/-- The place behind a round. -/
def next (rounds round : Nat) : Place :=
  if round + 1 = rounds then .finished else .waiting (round + 1) .offering

theorem sent_next (rounds round : Nat) : (next rounds round).sent rounds = round + 1 := by
  unfold next
  split
  case isTrue h => exact h.symm
  case isFalse => rfl

theorem taken_next (rounds round : Nat) : (next rounds round).taken rounds = round + 1 := by
  unfold next
  split
  case isTrue h => exact h.symm
  case isFalse => rfl

end Place

/-- A link at which an end stands that sends and takes these payloads, with all the bytes that
have arrived. -/
structure Standing (own peer : List Bytes) (arrived : Bytes) (place : Place) (l : Link) :
    Prop where
  out : l.out = transcript (own.take (place.sent own.length))
  exists_unread : ∃ unread, l.Tidy unread ∧
    transcript (peer.take (place.taken own.length)) ++ unread = arrived
  ended : l.stream.ended = false
  /-- Bytes stay queued only while they are waited for. -/
  flushed : (∀ round, place ≠ .waiting round .flushing) → l.writer.queue = []
  round_lt : ∀ round stage, place = .waiting round stage → round < own.length
  /-- What was taken came in frames. -/
  fits : ∀ q ∈ peer.take (place.taken own.length), Fits q

/-- Why an end that was polled does not get further: it is done, or there is no room for what it
has queued, or it waits for a frame that is not there. -/
def Resting (full : Prop) (l : Link) : Place → Prop
  | .waiting _ .offering => False
  | .waiting _ .flushing => l.writer.queue ≠ [] ∧ full
  | .waiting _ .receiving =>
    l.stream.arrivals = [] ∧ ∃ unread, l.Tidy unread ∧ cutFrame unread = none
  | .finished => True

theorem Resting.mono {full full' : Prop} {l : Link} {place : Place} (h : Resting full l place)
    (himp : full → full') : Resting full' l place := by
  match place, h with
  | .waiting _ .flushing, ⟨hqueue, hfull⟩ => exact ⟨hqueue, himp hfull⟩
  | .waiting _ .receiving, h => exact h
  | .finished, _ => trivial

section Standing

variable {own peer : List Bytes} {arrived : Bytes} {l : Link} {limit : Option Nat}
  {round : Nat} {stage : Link.Stage} {p q : Bytes}

/-- What one round comes to at an end. -/
inductive RoundEnds (limit : Option Nat) (own peer : List Bytes) (arrived : Bytes) (l : Link)
    (round : Nat) (q : Bytes) : Link.Exchange × Link → Prop
  | rests {stage : Link.Stage} {l' : Link} (hadvances : l.Advances limit l')
      (hstanding : Standing own peer arrived (.waiting round stage) l')
      (hresting : Resting (limit = some l'.stream.written.length) l' (.waiting round stage)) :
      RoundEnds limit own peer arrived l round q (.waiting stage, l')
  | answered {l' : Link} (hadvances : l.Advances limit l')
      (hstanding : Standing own peer arrived (.next own.length round) l') :
      RoundEnds limit own peer arrived l round q (.finished (.ok (.frame q)), l')

theorem Standing.roundEnds (h : Standing own peer arrived (.waiting round stage) l)
    (hallows : l.stream.Allows limit) (hproper : Proper peer)
    (harrived : arrived <+: transcript peer) (hp : own[round]? = some p)
    (hq : peer[round]? = some q) :
    RoundEnds limit own peer arrived l round q (l.exchange p stage) := by
  obtain ⟨unread, htidy, hunread⟩ := h.exists_unread
  have hnext := cutFrame_of_prefix hproper hq (hunread ▸ harrived)
  have hplain : ∀ fault rest, cutFrame unread ≠ some (.error fault, rest) := by
    intro fault rest hfault
    obtain ⟨hcut, -⟩ | ⟨-, left, hcut, -⟩ := hnext <;> cases hcut.symm.trans hfault
  have hempty : stage ≠ .flushing → l.writer.queue = [] := fun hstage =>
    h.flushed fun r hplace => by cases hplace; exact hstage rfl
  have hrounds := Link.rounds_exchange hallows hempty htidy h.ended hplain p
  have hsent : l.out ++ stage.owedBytes p = transcript (own.take (round + 1)) := by
    rw [h.out]
    cases stage with
    | offering => exact (transcript_take_succ hp).symm
    | flushing | receiving => exact List.append_nil _
  have hround := h.round_lt round stage rfl
  have hstay : ∀ {stage' : Link.Stage} (r : Nat) (s : Link.Stage),
      Place.waiting round stage' = .waiting r s → r < own.length := by
    intro _ _ _ hplace
    cases hplace
    exact hround
  generalize l.exchange p stage = result at hrounds ⊢
  cases hrounds with
  | full hadvances htidy' hout hqueue hfull =>
    refine .rests hadvances ⟨hout.trans hsent, ⟨unread, htidy', hunread⟩,
      hadvances.ended.trans h.ended, fun hplace => absurd rfl (hplace round), hstay, h.fits⟩
      ⟨hqueue, hfull⟩
  | awaits hadvances htidy' hout hempty' hcut harrivals =>
    exact .rests hadvances ⟨hout.trans hsent, ⟨unread, htidy', hunread⟩,
      hadvances.ended.trans h.ended, fun _ => hempty', hstay, h.fits⟩
      ⟨harrivals, unread, htidy', hcut⟩
  | @answered payload rest l' hadvances htidy' hout hempty' hcut =>
    obtain ⟨hnone, -⟩ | ⟨hfits, left, hsome, hleft⟩ := hnext
    · cases hnone.symm.trans hcut
    · have hfound := hcut.symm.trans hsome
      obtain ⟨rfl, rfl⟩ : payload = q ∧ rest = left := by
        cases hfound
        exact ⟨rfl, rfl⟩
      refine .answered hadvances ⟨?_, ⟨rest, htidy', ?_⟩, hadvances.ended.trans h.ended,
        fun _ => hempty', fun r s hplace => ?_, ?_⟩
      · rw [Place.sent_next]
        exact hout.trans hsent
      · rw [Place.taken_next]
        exact hleft.trans hunread
      · unfold Place.next at hplace
        split at hplace
        case isTrue => cases hplace
        case isFalse hmore =>
          cases hplace
          omega
      · rw [Place.taken_next, List.take_add_one, hq]
        exact List.forall_mem_append.2 ⟨h.fits, List.forall_mem_singleton.2 hfits⟩

/-- Bytes that arrive are still to be taken. -/
theorem Standing.arrive {place : Place} (h : Standing own peer arrived place l) (chunk : Bytes) :
    Standing own peer (arrived ++ chunk) place (l.happen (.arrive chunk)) := by
  obtain ⟨unread, htidy, hunread⟩ := h.exists_unread
  exact ⟨h.out, ⟨unread ++ chunk, htidy.arrive chunk, by rw [← List.append_assoc, hunread]⟩,
    h.ended, h.flushed, h.round_lt, h.fits⟩

/-- How much is accepted does not matter to where an end stands. -/
theorem Standing.accept {place : Place} (h : Standing own peer arrived place l)
    (acceptance : Acceptance) :
    Standing own peer arrived place (l.happen (.accept acceptance)) :=
  ⟨h.out, h.exists_unread, h.ended, h.flushed, h.round_lt, h.fits⟩

end Standing

/-! ## Ends -/

/-- One end of a connection. -/
inductive End where
  | signature (own : Bytes) (progress : Progress Unit) (link : Link)
  | handshake (name : String) (progress : Flow.HandshakeProgress) (flow : Flow)

namespace End

/-- An end that has not begun. -/
def start : Script → End
  | .signature own => .signature own (.waiting .offering) (.ofStream .idle)
  | .handshake name =>
    .handshake name (.waiting (Flow.create 0 .idle false).firstStage) (.create 0 .idle false)

def script : End → Script
  | .signature own _ _ => .signature own
  | .handshake name _ _ => .handshake name

def link : End → Link
  | .signature _ _ link => link
  | .handshake _ _ flow => flow.link

/-- Something happens to the link of an end. -/
def happen (e : End) (event : Stream.FarEvent) : End :=
  match e with
  | .signature own progress link => .signature own progress (link.happen event)
  | .handshake name progress flow =>
    .handshake name progress { flow with link := flow.link.happen event }

/-- One poll. An end that is finished stays as it is. -/
def go : End → End
  | .signature own (.waiting stage) link =>
    .signature own (exchangeSignature own stage link).1 (exchangeSignature own stage link).2
  | .handshake name (.waiting stage) flow =>
    .handshake name (flow.shake name stage).1 (flow.shake name stage).2
  | e => e

-- The first poll of a flow begins its handshake.
example (name : String) :
    (start (.handshake name)).go =
      .handshake name ((Flow.create 0 .idle false).beginHandshake name).1
        ((Flow.create 0 .idle false).beginHandshake name).2 :=
  rfl

@[simp] theorem link_happen (e : End) (event : Stream.FarEvent) :
    (e.happen event).link = e.link.happen event := by
  cases e <;> rfl

@[simp] theorem script_happen (e : End) (event : Stream.FarEvent) :
    (e.happen event).script = e.script := by
  cases e <;> rfl

def place : End → Place
  | .signature _ (.waiting stage) _ => .waiting 0 stage
  | .handshake _ (.waiting (.signature stage)) _ => .waiting 0 stage
  | .handshake _ (.waiting (.names stage)) _ => .waiting 1 stage
  | .signature _ (.finished _) _ | .handshake _ (.finished _) _ => .finished

/-- What an end has to come to that meets this peer, once it is finished. -/
def Right : End → Script → Prop
  | .signature own (.finished result) _, .signature other =>
    result = if own = other then .ok () else .error (.handshake .signatureMismatch)
  | .handshake name (.finished result) flow, .handshake other =>
    result = .ok () ∧ flow.localName = some name ∧ flow.remoteName = some other
  | _, _ => True

/-- An end that meets a peer, of which these bytes have arrived. -/
structure Stands (peer : Script) (arrived : Bytes) (e : End) : Prop where
  standing : Standing e.script.payloads peer.payloads arrived e.place e.link
  right : e.Right peer

@[simp] theorem place_happen (e : End) (event : Stream.FarEvent) :
    (e.happen event).place = e.place := by
  rcases e with ⟨_, _ | _, _⟩ | ⟨_, ⟨_ | _⟩ | _, _⟩ <;> rfl

theorem right_happen {e : End} {peer : Script} (h : e.Right peer) (event : Stream.FarEvent) :
    (e.happen event).Right peer := by
  rcases e with ⟨_, _ | _, _⟩ | ⟨_, _ | _, _⟩ <;> cases peer <;> exact h

theorem go_of_finished {e : End} (h : e.place = .finished) : e.go = e := by
  match e, h with
  | .signature _ (.finished _) _, _ => rfl
  | .handshake _ (.finished _) _, _ => rfl
  | .signature _ (.waiting _) _, h => cases h
  | .handshake _ (.waiting (.signature _)) _, h => cases h
  | .handshake _ (.waiting (.names _)) _, h => cases h

theorem happen_arrive_nil (e : End) : e.happen (.arrive []) = e := by
  have hlink : ∀ l : Link, l.happen (.arrive []) = l := by
    intro l
    show { l with stream := { l.stream with arrivals := l.stream.arrivals ++ [] } } = l
    rw [List.append_nil]
  cases e with
  | signature own progress link => rw [happen, hlink]
  | handshake name progress flow => rw [happen, hlink]

/-- Bytes that arrive are still to be taken. -/
theorem Stands.arrive {e : End} {peer : Script} {arrived : Bytes} (h : e.Stands peer arrived)
    (chunk : Bytes) : (e.happen (.arrive chunk)).Stands peer (arrived ++ chunk) := by
  refine ⟨?_, right_happen h.right _⟩
  rw [script_happen, place_happen, link_happen]
  exact h.standing.arrive chunk

theorem Stands.accept {e : End} {peer : Script} {arrived : Bytes} (h : e.Stands peer arrived)
    (acceptance : Acceptance) : (e.happen (.accept acceptance)).Stands peer arrived := by
  refine ⟨?_, right_happen h.right _⟩
  rw [script_happen, place_happen, link_happen]
  exact h.standing.accept acceptance

/-- An end that waits for a frame does not get further without one. -/
theorem place_go_of_short {e : End} {round : Nat} {unread : Bytes}
    (hplace : e.place = .waiting round .receiving) (htidy : e.link.Tidy unread)
    (hcut : cutFrame unread = none) (hopen : e.link.stream.ended = false) :
    e.go.place = e.place := by
  obtain ⟨l', hreceive⟩ := Link.exchangeReceive_of_short htidy hcut hopen
  rcases e with ⟨own, stage | result, l⟩ | ⟨name, ⟨stage | stage⟩ | result, f⟩
  case signature.finished | handshake.finished => cases hplace
  case signature.waiting =>
    obtain rfl : stage = .receiving := by cases hplace; rfl
    change l.exchangeReceive = _ at hreceive
    rw [go, exchangeSignature, exchangeThen, Link.exchange, hreceive]
    rfl
  case handshake.waiting.signature =>
    obtain rfl : stage = .receiving := by cases hplace; rfl
    change f.link.exchangeReceive = _ at hreceive
    rw [go, Flow.shake, exchangeSignature, exchangeThen, Link.exchange, hreceive]
    rfl
  case handshake.waiting.names =>
    obtain rfl : stage = .receiving := by cases hplace; rfl
    change f.link.exchangeReceive = _ at hreceive
    rw [go, Flow.shake, Flow.names, exchangeNames, exchangeThen, Link.exchange, hreceive]
    rfl

/-- One poll of an end. -/
structure Goes (limit : Option Nat) (peer : Script) (arrived : Bytes) (e e' : End) : Prop where
  script : e'.script = e.script
  stands : e'.Stands peer arrived
  advances : e.link.Advances limit e'.link
  resting : Resting (limit = some e'.link.stream.written.length) e'.link e'.place

theorem stands_start {script peer : Script} : (start script).Stands peer [] := by
  have hstart : ∀ {own peer : List Bytes}, own ≠ [] →
      Standing own peer [] (.waiting 0 .offering) (.ofStream .idle) := fun hown =>
    { out := rfl
      exists_unread := ⟨[], Reader.tidy_fresh, rfl⟩
      ended := rfl
      flushed := fun _ => rfl
      round_lt := fun r s hplace => by
        cases hplace
        exact List.length_pos_iff.2 hown
      fits := fun _ hq => nomatch hq }
  cases script with
  | signature own => exact ⟨hstart (fun h => nomatch h), trivial⟩
  | handshake name => exact ⟨hstart (fun h => nomatch h), trivial⟩

variable {peer : Script} {arrived : Bytes} {limit : Option Nat}

theorem goes_finished {e : End} (hplace : e.place = .finished) (h : e.Stands peer arrived)
    (hallows : e.link.stream.Allows limit) : Goes limit peer arrived e e.go := by
  rw [go_of_finished hplace]
  refine ⟨rfl, h, .refl hallows, ?_⟩
  rw [hplace]
  trivial

/-- An exchange of signatures has one round. -/
theorem goes_signature {own other : Bytes} {stage : Link.Stage} {l : Link} (hother : other ≠ [])
    (h : Standing [own] [other] arrived (.waiting 0 stage) l)
    (hallows : l.stream.Allows limit) (harrived : arrived <+: transcript [other]) :
    Goes limit (.signature other) arrived (.signature own (.waiting stage) l)
      (End.signature own (.waiting stage) l).go := by
  have hproper : Proper [other] := (Script.Meets.signature hother hother).proper
  have hround := h.roundEnds hallows hproper harrived rfl rfl
  rw [go, exchangeSignature, exchangeThen]
  generalize l.exchange own stage = result at hround ⊢
  cases hround with
  | rests hadvances hstanding hresting =>
    exact ⟨rfl, ⟨hstanding, trivial⟩, hadvances, hresting⟩
  | answered hadvances hstanding =>
    refine ⟨rfl, ⟨hstanding, ?_⟩, hadvances, trivial⟩
    show checkSignature own (.frame other) = _
    rw [Flow.checkSignature_frame hother]
    simp only [eq_comm]

/-- The second round of a handshake. -/
theorem goes_names {e : End} {name other : String} {stage : Link.Stage} {f : Flow}
    (hscript : e.script = .handshake name) (hbefore : e.link.Advances limit f.link)
    (hother : other ≠ "")
    (h : Standing (Script.handshake name).payloads (Script.handshake other).payloads arrived
      (.waiting 1 stage) f.link)
    (harrived : arrived <+: transcript (Script.handshake other).payloads) :
    Goes limit (.handshake other) arrived e
      (.handshake name (f.names name stage).1 (f.names name stage).2) := by
  have hproper := (Script.Meets.handshake hother hother).proper
  have hround := h.roundEnds hbefore.allows hproper harrived rfl rfl
  unfold Flow.names exchangeNames exchangeThen
  generalize f.link.exchange (Text.Utf8.encode name) stage = result at hround ⊢
  cases hround with
  | rests hadvances hstanding hresting =>
    exact ⟨hscript.symm, ⟨hstanding, trivial⟩, hbefore.trans hadvances, hresting⟩
  | answered hadvances hstanding =>
    have hname : checkName (.frame (Text.Utf8.encode other)) = .ok other := by
      rw [Flow.checkName_frame (Text.Utf8.encode_ne_nil hother), Text.Utf8.decodeLossy_encode]
    simp only [hname]
    exact ⟨hscript.symm, ⟨hstanding, rfl, rfl, rfl⟩, hbefore.trans hadvances, trivial⟩

/-- A handshake has two rounds. -/
theorem goes_handshake {name other : String} {stage : HandshakeStage} {f : Flow}
    (hother : other ≠ "")
    (h : (End.handshake name (.waiting stage) f).Stands (.handshake other) arrived)
    (hallows : f.link.stream.Allows limit)
    (harrived : arrived <+: transcript (Script.handshake other).payloads) :
    Goes limit (.handshake other) arrived (.handshake name (.waiting stage) f)
      (End.handshake name (.waiting stage) f).go := by
  cases stage with
  | names stage => exact goes_names rfl (.refl hallows) hother h.standing harrived
  | signature stage =>
    have hproper := (Script.Meets.handshake hother hother).proper
    have hround := h.standing.roundEnds hallows hproper harrived rfl rfl
    change RoundEnds _ _ _ _ f.link _ _ (f.link.exchange Chat.signature stage) at hround
    rw [go, Flow.shake, exchangeSignature, exchangeThen]
    generalize f.link.exchange Chat.signature stage = result at hround ⊢
    cases hround with
    | rests hadvances hstanding hresting =>
      exact ⟨rfl, ⟨hstanding, trivial⟩, hadvances, hresting⟩
    | @answered l' hadvances hstanding =>
      have hsame : checkSignature Chat.signature (.frame Chat.signature) = .ok () := by
        rw [Flow.checkSignature_frame (by decide), if_pos rfl]
      simp only [hsame]
      exact goes_names (f := { f with link := l', validated := true }) rfl hadvances hother
        hstanding harrived

theorem go_spec {e : End} (hmeets : e.script.Meets peer) (h : e.Stands peer arrived)
    (hallows : e.link.stream.Allows limit) (harrived : arrived <+: transcript peer.payloads) :
    Goes limit peer arrived e e.go := by
  match e, hmeets with
  | .signature own (.finished result) l, _ => exact goes_finished rfl h hallows
  | .handshake name (.finished result) f, _ => exact goes_finished rfl h hallows
  | .signature own (.waiting stage) l, .signature _ hother =>
    exact goes_signature hother h.standing hallows harrived
  | .handshake name (.waiting stage) f, .handshake _ hother =>
    exact goes_handshake hother h hallows harrived

end End

end Parley.Chat
