import Parley.Chat.Handshake
import Parley.Proofs.Wire.Attempts

/-!
# Calls of the near end

The near end sends frames and texts, exchanges signatures and names, and shuts down. Its calls
succeed, fail or are given up while they wait, and the far end accepts as much as it likes.
Whatever comes of it, the bytes that were written are the beginning of whole frames, in the
order of the calls.

- `Call`, `Desk`: calls, and a link with all the calls that were made on it.
- `Queued`: the payloads of the calls whose frames were queued.
- `Desk.Kept`: what every step keeps.
- `Desk.written_run`: no frame is torn or put before another.
-/

namespace Parley.Chat

open Wire

/-! ## Calls -/

/-- Something that the near end asks of its link. -/
inductive Call where
  | frame (payload : Bytes)
  | text (text : String)
  | signature (own : Bytes)
  | names (ownName : String)
  | shutdown

/-- Leaves out what was found. -/
def Progress.forget {α : Type} : Progress α → Progress Unit
  | .waiting stage => .waiting stage
  | .finished result => .finished (result.map fun _ => ())

/-- Whether all of a frame is said to be written, whatever the other end answers. -/
def Progress.IsSent : Progress Unit → Prop
  | .waiting .receiving | .finished (.ok ()) | .finished (.error (.handshake _)) => True
  | _ => False

/-- How far a call got whose only task is to get something out. -/
def progressOf : Writer.Sending → Progress Unit
  | .held => .waiting .offering
  | .queued => .waiting .flushing
  | .finished result => .finished (result.mapError .io)

namespace Call

/-- The payload that a call sends. -/
def payload? : Call → Option Bytes
  | .frame bytes | .signature bytes => some bytes
  | .text line | .names line => some (Text.Utf8.encode line)
  | .shutdown => none

/-- Where a call begins. -/
def firstStage : Call → Link.Stage
  | .shutdown => .flushing
  | _ => .offering

/-- Goes on with a call from where it stands. -/
def proceed (stage : Link.Stage) (l : Link) : Call → Progress Unit × Link
  | .frame bytes => (progressOf (l.sendOn bytes stage).1, (l.sendOn bytes stage).2)
  | .text line =>
    (progressOf (l.sendOn (Text.Utf8.encode line) stage).1,
      (l.sendOn (Text.Utf8.encode line) stage).2)
  | .signature own => exchangeSignature own stage l
  | .names ownName =>
    ((exchangeNames ownName stage l).1.forget, (exchangeNames ownName stage l).2)
  | .shutdown => (progressOf (Link.sendingOf l.shutdown.1), l.shutdown.2)

end Call

/-- What going on with a call comes to, from where it stands. -/
inductive Proceeds (l : Link) (payload? : Option Bytes) (stage : Link.Stage) :
    Progress Unit × Link → Prop
  /-- The frame is not queued: much was queued before, and could not be written. -/
  | refused {progress : Progress Unit} {l' : Link} (hstage : stage = .offering)
      (hprogress : progress = .waiting .offering ∨
        ∃ fault, progress = .finished (.error (.io fault)))
      (hfull : Writer.fullLength ≤ l.writer.queue.length) (hleft : l'.writer.queue ≠ [])
      (hout : l'.out = l.out) : Proceeds l payload? stage (progress, l')
  | taken {progress : Progress Unit} {l' : Link} (hprogress : progress ≠ .waiting .offering)
      (hout : l'.out = l.out ++ (stage.owed payload?).elim [] frameOf)
      (hsent : progress.IsSent → (∀ payload ∈ payload?, Fits payload) → l'.writer.queue = []) :
      Proceeds l payload? stage (progress, l')

theorem proceeds_of_delivers {l l' : Link} {payload? : Option Bytes} {stage : Link.Stage}
    {sending : Writer.Sending} (h : l.Delivers (stage.owed payload?) (sending, l')) :
    Proceeds l payload? stage (progressOf sending, l') := by
  generalize hdue : stage.owed payload? = due at h
  cases h with
  | refused hsending hfull hleft hout =>
    have hstage : stage = .offering := by
      cases stage with
      | offering => rfl
      | flushing | receiving => cases hdue
    refine .refused hstage ?_ hfull hleft hout
    rcases hsending with rfl | ⟨fault, rfl⟩
    · exact .inl rfl
    · exact .inr ⟨fault, rfl⟩
  | taken hsending hout hdone =>
    subst hdue
    refine .taken ?_ hout fun hsent hfits => ?_
    · cases sending with
      | held => exact absurd rfl hsending
      | queued | finished => exact fun h => nomatch h
    · rcases sending with _ | _ | ⟨_ | _⟩
      · exact hsent.elim
      · exact hsent.elim
      · exact hsent.elim
      · exact hdone rfl fun payload h => hfits payload (Link.Stage.mem_of_mem_owed h)

/-- An exchange whose own frame is out reads, which hands nothing to the writer. -/
theorem proceeds_exchangeThen {α : Type} {payload : Bytes} {stage : Link.Stage} {l : Link}
    (h : stage = .receiving → Fits payload → l.writer.queue = [])
    (check : Reception → Except FlowFault α) :
    Proceeds l (some payload) stage
      ((exchangeThen payload check stage l).1.forget, (exchangeThen payload check stage l).2) := by
  have hreads : ∀ l' : Link, l'.out = l.out ++ (stage.owed (some payload)).elim [] frameOf →
      (Fits payload → l'.writer.queue = []) → l.exchange payload stage = l'.exchangeReceive →
      Proceeds l (some payload) stage
        ((exchangeThen payload check stage l).1.forget,
          (exchangeThen payload check stage l).2) := by
    intro l' hout hqueue hexchange
    rw [exchangeThen, hexchange]
    obtain ⟨l'', hreads, hreceive | ⟨reception, hreceive⟩⟩ := l'.exchangeReceive_cases
    all_goals
      rw [hreceive]
      refine .taken (fun h => nomatch h) (hreads.out.trans hout) fun _ hfits => ?_
      rw [hreads.writer]
      exact hqueue (hfits payload rfl)
  by_cases hstage : stage = .receiving
  case pos =>
    subst hstage
    exact hreads l (List.append_nil _).symm (h rfl) rfl
  case neg =>
    have hexchange := l.exchange_eq_sendOn hstage payload
    have hdelivers := l.delivers_sendOn payload stage
    rcases hsend : l.sendOn payload stage with ⟨sending, l'⟩
    rw [hsend] at hexchange hdelivers
    have hproceeds := proceeds_of_delivers hdelivers
    match sending, hexchange, hproceeds with
    | .held, hexchange, hproceeds | .queued, hexchange, hproceeds
    | .finished (.error fault), hexchange, hproceeds =>
      rw [exchangeThen, hexchange]
      exact hproceeds
    | .finished (.ok ()), hexchange, hproceeds =>
      cases hproceeds with
      | refused _ hprogress => rcases hprogress with hprogress | ⟨_, hprogress⟩ <;> cases hprogress
      | taken _ hout hsent =>
        refine hreads l' hout (fun hfits => hsent trivial fun _ h => ?_) hexchange
        cases h
        exact hfits

theorem sent_of_proceeds {l : Link} {payload? : Option Bytes} {stage : Link.Stage}
    {result : Progress Unit × Link} (h : Proceeds l payload? stage result) (hsent : result.1.IsSent)
    (hfits : ∀ payload ∈ payload?, Fits payload) : result.2.writer.queue = [] := by
  cases h with
  | refused _ hprogress =>
    rcases hprogress with rfl | ⟨fault, rfl⟩
    · exact hsent.elim
    · exact hsent.elim
  | taken _ _ hqueue => exact hqueue hsent hfits

theorem Progress.forget_unit (progress : Progress Unit) : progress.forget = progress := by
  rcases progress with _ | ⟨_ | _⟩ <;> rfl

/-- Whatever a call is for, it gets its frame out in the same way. -/
theorem proceeds_proceed (c : Call) {stage : Link.Stage} {l : Link}
    (h : stage = .receiving → (∀ payload ∈ c.payload?, Fits payload) → l.writer.queue = []) :
    Proceeds l c.payload? stage (c.proceed stage l) := by
  have hone : ∀ payload : Bytes, c.payload? = some payload →
      stage = .receiving → Fits payload → l.writer.queue = [] := by
    intro payload hpayload hstage hfits
    refine h hstage fun p hp => ?_
    cases hpayload.symm.trans hp
    exact hfits
  cases c with
  | frame bytes => exact proceeds_of_delivers (l.delivers_sendOn bytes stage)
  | text line => exact proceeds_of_delivers (l.delivers_sendOn _ stage)
  | signature own =>
    have hproceeds := proceeds_exchangeThen (hone own rfl) (checkSignature own)
    rwa [Progress.forget_unit] at hproceeds
  | names ownName => exact proceeds_exchangeThen (hone _ rfl) checkName
  | shutdown =>
    refine proceeds_of_delivers ?_
    cases stage <;> exact l.delivers_shutdown

/-! ## Desks -/

/-- A call that was made. -/
structure Made where
  call : Call
  /-- The number of bytes that were queued when it was made. -/
  backlog : Nat
  progress : Progress Unit
  /-- The number of bytes that were queued after the last attempt. -/
  left : Nat

/-- A link with the calls that were made on it, the last one first. Only that one may still
wait; the others have succeeded, have failed or were given up. -/
structure Desk where
  link : Link
  made : List Made

namespace Desk

/-- Something that happens at a desk. -/
inductive Act where
  | far (event : Stream.FarEvent)
  /-- A call is made, and the one that waits is given up. -/
  | call (c : Call)
  /-- The call that waits goes on. -/
  | poll

/-- A desk at which nothing has happened. -/
def idle : Desk where
  link := .ofStream .idle
  made := []

/-- One attempt at a call. -/
def attempt (c : Call) (backlog : Nat) (stage : Link.Stage) (d : Desk) : Desk where
  link := (c.proceed stage d.link).2
  made :=
    { call := c
      backlog
      progress := (c.proceed stage d.link).1
      left := (c.proceed stage d.link).2.writer.queue.length } :: d.made

/-- Goes on with the call that waits, if one does. -/
def poll (d : Desk) : Desk :=
  match d.made with
  | ⟨c, backlog, .waiting stage, _⟩ :: made => { d with made }.attempt c backlog stage
  | _ => d

def act (d : Desk) : Act → Desk
  | .far event => { d with link := d.link.happen event }
  | .call c => d.attempt c d.link.writer.queue.length c.firstStage
  | .poll => d.poll

def run (d : Desk) (acts : List Act) : Desk :=
  acts.foldl act d

end Desk

/-- The payloads of the calls whose frames were queued, in the order of the calls. Only behind a
long queue that could not be written is a frame left out. -/
inductive Queued : List Made → List Bytes → Prop
  | nil : Queued [] []
  | queued {m : Made} {made : List Made} {payloads : List Bytes} {payload : Bytes}
      (hrest : Queued made payloads) (hcall : m.call.payload? = some payload)
      (hfits : Fits payload) (hprogress : m.progress ≠ .waiting .offering) :
      Queued (m :: made) (payloads ++ [payload])
  | refused {m : Made} {made : List Made} {payloads : List Bytes}
      (hrest : Queued made payloads) (hfull : Writer.fullLength ≤ m.backlog) (hleft : 0 < m.left)
      (hprogress : m.progress = .waiting .offering ∨
        ∃ fault, m.progress = .finished (.error (.io fault))) :
      Queued (m :: made) payloads
  /-- The call sends nothing, or what fits no frame. -/
  | nothing {m : Made} {made : List Made} {payloads : List Bytes}
      (hrest : Queued made payloads)
      (hcall : ∀ payload ∈ m.call.payload?, ¬Fits payload) : Queued (m :: made) payloads

theorem Queued.fits {made : List Made} {payloads : List Bytes} (h : Queued made payloads) :
    ∀ p ∈ payloads, Fits p := by
  induction h with
  | nil => exact List.forall_mem_nil _
  | queued _ _ hfits _ ih =>
    intro p hp
    rcases List.mem_append.1 hp with hp | hp
    · exact ih p hp
    · cases List.mem_singleton.1 hp
      exact hfits
  | refused _ _ _ _ ih | nothing _ _ ih => exact ih

namespace Desk

/-- The payloads that were queued at a desk make up all that was handed to its writer. -/
structure Kept (d : Desk) (payloads : List Bytes) : Prop where
  queued : Queued d.made payloads
  out : d.link.out = payloads.flatMap frameBytes
  sent : ∀ m ∈ d.made.head?, m.progress.IsSent → (∀ payload ∈ m.call.payload?, Fits payload) →
    d.link.writer.queue = []

variable {d : Desk} {payloads : List Bytes}

theorem kept_idle : idle.Kept [] where
  queued := .nil
  out := rfl
  sent _ h := nomatch h

section Attempt

variable {c : Call} {backlog : Nat} {stage : Link.Stage} {payload : Bytes}

/-- A call that has no frame to queue adds nothing. -/
theorem Kept.attempt_nothing (hqueued : Queued d.made payloads)
    (hout : d.link.out = payloads.flatMap frameBytes)
    (hwait : stage = .receiving → (∀ p ∈ c.payload?, Fits p) → d.link.writer.queue = [])
    (hcall : ∀ p ∈ c.payload?, ¬Fits p) : (d.attempt c backlog stage).Kept payloads where
  queued := .nothing hqueued hcall
  out := by
    have hproceeds := proceeds_proceed c hwait
    have howed : (stage.owed c.payload?).elim [] frameOf = [] := by
      cases h : stage.owed c.payload? with
      | none => rfl
      | some p => exact frameOf_of_not_fits (hcall p (Link.Stage.mem_of_mem_owed h))
    show (c.proceed stage d.link).2.out = _
    generalize c.proceed stage d.link = result at hproceeds ⊢
    cases hproceeds with
    | refused _ _ _ _ hout' => exact hout'.trans hout
    | taken _ hout' _ => rw [hout', howed, List.append_nil, hout]
  sent m hm := by
    cases hm
    exact sent_of_proceeds (proceeds_proceed c hwait)

/-- A call whose frame is queued goes on with getting it out. -/
theorem Kept.attempt_queued (hqueued : Queued d.made payloads)
    (hout : d.link.out = (payloads ++ [payload]).flatMap frameBytes)
    (hwait : stage = .receiving → (∀ p ∈ c.payload?, Fits p) → d.link.writer.queue = [])
    (hstage : stage ≠ .offering) (hcall : c.payload? = some payload) (hfits : Fits payload) :
    (d.attempt c backlog stage).Kept (payloads ++ [payload]) := by
  have hproceeds := proceeds_proceed c hwait
  have howed : stage.owed c.payload? = none := by
    cases stage with
    | offering => exact absurd rfl hstage
    | flushing | receiving => rfl
  refine ⟨.queued hqueued hcall hfits ?_, ?_, ?_⟩
  · show (c.proceed stage d.link).1 ≠ _
    generalize c.proceed stage d.link = result at hproceeds ⊢
    cases hproceeds with
    | refused hoffering => exact absurd hoffering hstage
    | taken hprogress => exact hprogress
  · show (c.proceed stage d.link).2.out = _
    generalize c.proceed stage d.link = result at hproceeds ⊢
    cases hproceeds with
    | refused hoffering => exact absurd hoffering hstage
    | taken _ hout' _ =>
      rw [hout', howed, hout]
      exact List.append_nil _
  · intro m hm
    cases hm
    exact sent_of_proceeds hproceeds

/-- A call whose frame is still to be queued queues it, or finds much that cannot be written. -/
theorem exists_kept_attempt (hqueued : Queued d.made payloads)
    (hout : d.link.out = payloads.flatMap frameBytes)
    (hbacklog : Writer.fullLength ≤ d.link.writer.queue.length → Writer.fullLength ≤ backlog)
    (hstage : stage ≠ .receiving) (hcall : ∀ p ∈ c.payload?, stage = .offering) :
    ∃ payloads', (d.attempt c backlog stage).Kept payloads' := by
  have hwait : stage = .receiving → (∀ p ∈ c.payload?, Fits p) → d.link.writer.queue = [] :=
    fun h => absurd h hstage
  by_cases hfits : ∃ p ∈ c.payload?, Fits p
  case neg => exact ⟨payloads, .attempt_nothing hqueued hout hwait fun p hp h => hfits ⟨p, hp, h⟩⟩
  case pos =>
    obtain ⟨payload, hpayload, hfits⟩ := hfits
    have hproceeds := proceeds_proceed c hwait
    have hsent := sent_of_proceeds hproceeds
    unfold attempt
    generalize c.proceed stage d.link = result at hproceeds hsent ⊢
    cases hproceeds with
    | refused _ hprogress hfull hleft hout' =>
      refine ⟨payloads, .refused hqueued (hbacklog hfull) (List.length_pos_iff.2 hleft) hprogress,
        hout'.trans hout, fun m hm => ?_⟩
      cases hm
      exact hsent
    | taken hprogress hout' _ =>
      refine ⟨payloads ++ [payload], .queued hqueued hpayload hfits hprogress, ?_, fun m hm => ?_⟩
      · rw [hout', hout, hcall payload hpayload, List.flatMap_append,
          show c.payload? = some payload from hpayload]
        show _ ++ frameOf payload = _ ++ (frameBytes payload ++ [])
        rw [frameOf_of_fits hfits, List.append_nil]
      · cases hm
        exact hsent

end Attempt

/-- The call that waits goes on from where it stands. -/
theorem Kept.poll (h : d.Kept payloads) : ∃ payloads', d.poll.Kept payloads' := by
  unfold Desk.poll
  split
  case h_2 => exact ⟨payloads, h⟩
  case h_1 c backlog stage left made hmade =>
    have hqueued := h.queued
    have hwait : stage = .receiving → (∀ p ∈ c.payload?, Fits p) → d.link.writer.queue = [] := by
      rintro rfl
      exact h.sent ⟨c, backlog, .waiting .receiving, left⟩ (by rw [hmade]; rfl) trivial
    rw [hmade] at hqueued
    cases hqueued with
    | queued hrest hcall hfits hprogress =>
      refine ⟨_, .attempt_queued hrest h.out hwait ?_ hcall hfits⟩
      rintro rfl
      exact hprogress rfl
    | refused hrest hfull _ hprogress =>
      obtain rfl : stage = .offering := by
        rcases hprogress with hprogress | ⟨_, hprogress⟩ <;> cases hprogress
        rfl
      exact exists_kept_attempt hrest h.out (fun _ => hfull) (fun h => nomatch h) fun _ _ => rfl
    | nothing hrest hcall => exact ⟨payloads, .attempt_nothing hrest h.out hwait hcall⟩

theorem Kept.act (h : d.Kept payloads) (a : Act) : ∃ payloads', (d.act a).Kept payloads' := by
  cases a with
  | far event =>
    have hlink : (d.link.happen event).out = d.link.out := by cases event <;> rfl
    exact ⟨payloads, h.queued, hlink.trans h.out, h.sent⟩
  | call c =>
    refine exists_kept_attempt h.queued h.out id ?_ ?_
    · cases c <;> exact fun h => nomatch h
    · cases c with
      | shutdown => exact fun p hp => nomatch hp
      | frame | text | signature | names => exact fun _ _ => rfl
  | poll => exact h.poll

theorem exists_kept_run (acts : List Act) {d : Desk} {payloads : List Bytes}
    (h : d.Kept payloads) : ∃ payloads', (d.run acts).Kept payloads' := by
  induction acts generalizing d payloads with
  | nil => exact ⟨payloads, h⟩
  | cons a acts ih =>
    obtain ⟨payloads', h'⟩ := h.act a
    exact ih h'

/-- No frame is torn or put before another: whatever calls are made, succeed, fail or are given
up, and whatever the far end accepts, the written bytes are at every moment the beginning of
the frames that were queued, in the order of the calls. All of them are written once a call
says so, if it did not just skip a payload that fits no frame. Whoever reads the bytes reads the
first of the frames. -/
theorem written_run (acts : List Act) :
    ∃ payloads, Queued (idle.run acts).made payloads ∧
      (idle.run acts).link.stream.written <+: payloads.flatMap frameBytes ∧
      (∀ m ∈ (idle.run acts).made.head?, m.progress.IsSent →
        (∀ payload ∈ m.call.payload?, Fits payload) →
        (idle.run acts).link.stream.written = payloads.flatMap frameBytes) ∧
      ∀ moves, Decoder.fed moves <+: (idle.run acts).link.stream.written →
        (Decoder.empty.run moves).1 <+: payloads.map frameEvent := by
  obtain ⟨payloads, h⟩ := exists_kept_run acts kept_idle
  have hprefix : (idle.run acts).link.stream.written <+: payloads.flatMap frameBytes :=
    ⟨(idle.run acts).link.writer.queue, h.out⟩
  refine ⟨payloads, h.queued, hprefix, fun m hm hsent hfits => ?_, fun moves hmoves => ?_⟩
  · have hout := h.out
    rwa [Link.out, h.sent m hm hsent hfits, List.append_nil] at hout
  · rw [← frames_flatMap_frameBytes h.queued.fits]
    exact (Decoder.run_prefix moves).trans (frames_mono (hmoves.trans hprefix))

/-- The far end accepts three bytes of a frame, of which the call is given up. -/
example : (idle.run [.far (.accept (.upTo 3 .block)), .call (.frame [0x41, 0x42])]).link.out =
    [2, 0, 0] ++ [0, 0x41, 0x42] := rfl

/-- The rest of the frame goes before the next one. -/
theorem written_run_given_up :
    ∃ payloads, Queued (idle.run [.far (.accept (.upTo 3 .block)), .call (.frame [0x41, 0x42]),
        .far (.accept .everything), .call (.text "b")]).made payloads ∧
      (idle.run [.far (.accept (.upTo 3 .block)), .call (.frame [0x41, 0x42]),
        .far (.accept .everything), .call (.text "b")]).link.stream.written =
          payloads.flatMap frameBytes := by
  obtain ⟨payloads, hqueued, -, hall, -⟩ := written_run
    [.far (.accept (.upTo 3 .block)), .call (.frame [0x41, 0x42]), .far (.accept .everything),
      .call (.text "b")]
  refine ⟨payloads, hqueued, hall _ rfl trivial fun payload h => ?_⟩
  cases h
  decide

/-- A text that fits no frame is skipped where there is room in the queue, whatever is in it. -/
theorem attempt_text_of_not_fits {text : String} (hfits : ¬Fits (Text.Utf8.encode text))
    (hroom : d.link.writer.queue.length < Writer.fullLength) (backlog : Nat) :
    d.attempt (.text text) backlog .offering =
      { link := d.link
        made :=
          ⟨.text text, backlog, .finished (.ok ()), d.link.writer.queue.length⟩ :: d.made } := by
  have hput : d.link.put (Text.Utf8.encode text) = (.finished (.ok ()), d.link) :=
    Link.put_of_error (if_neg hfits)
  have hsend : d.link.sendOn (Text.Utf8.encode text) .offering = (.finished (.ok ()), d.link) := by
    rw [Link.sendOn, Link.send_eq, if_pos hroom, hput]
  rw [attempt, Call.proceed, hsend]
  rfl

/-- A call whose payload fits no frame succeeds, though nothing is queued for it, and though three
bytes that were queued before are not written. An empty payload is queued, and is a fault to
whoever reads it. -/
theorem not_written_longText :
    (idle.run [.far (.accept (.upTo 3 .block)), .call (.frame [0x41, 0x42]),
        .call (.text longText)]).made.head? =
        some ⟨.text longText, 3, .finished (.ok ()), 3⟩ ∧
      (idle.run [.far (.accept (.upTo 3 .block)), .call (.frame [0x41, 0x42]),
        .call (.text longText)]).link.writer.queue = [0, 0x41, 0x42] ∧
      (idle.run [.call (.frame []), .call (.text "x")]).link.stream.written =
        [[], [0x78]].flatMap frameBytes ∧
      (Decoder.empty.run [.feed ([[], [0x78]].flatMap frameBytes), .next, .next]).1 =
        [.error .emptyFrame, .ok [0x78]] := by
  have hskip : ∀ text, ¬Fits (Text.Utf8.encode text) →
      idle.run [.far (.accept (.upTo 3 .block)), .call (.frame [0x41, 0x42]), .call (.text text)] =
        { link := (idle.run [.far (.accept (.upTo 3 .block)), .call (.frame [0x41, 0x42])]).link
          made := ⟨.text text, 3, .finished (.ok ()), 3⟩ ::
            (idle.run [.far (.accept (.upTo 3 .block)), .call (.frame [0x41, 0x42])]).made } :=
    fun text hfits => attempt_text_of_not_fits hfits (by decide) 3
  rw [hskip longText not_fits_longText]
  exact ⟨rfl, rfl, rfl, rfl⟩

end Desk

end Parley.Chat
