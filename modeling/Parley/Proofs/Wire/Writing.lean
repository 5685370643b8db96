import Parley.Proofs.Wire.Reading

/-!
# Writing to a link

What was handed to a writer is either written or queued, and together these two only
grow. A frame that is sent goes behind them, whatever of it the far end accepts.

- `frameOf`: the bytes that a payload is sent as.
- `Link.out`: all bytes that were handed to the writer.
- `Link.OnlyWrites`: what writing leaves alone.
- `Link.Sends`: what the sending of a frame comes to.
- `Link.Exchanges`: what an exchange of frames comes to.
-/

namespace Parley.Wire

/-- The bytes that a payload is sent as. One that fits no frame is skipped. -/
def frameOf (payload : Bytes) : Bytes :=
  match encode payload with
  | .ok frame => frame
  | .error _ => []

theorem frameOf_of_ok {payload frame : Bytes} (h : encode payload = .ok frame) :
    frameOf payload = frame := by
  rw [frameOf, h]

theorem frameOf_of_error {payload : Bytes} {fault : FrameFault}
    (h : encode payload = .error fault) : frameOf payload = [] := by
  rw [frameOf, h]

theorem frameOf_eq_nil_iff {payload : Bytes} :
    frameOf payload = [] ↔ 0x80000000 ≤ payload.length := by
  by_cases hlt : payload.length < 0x80000000
  · rw [frameOf_of_ok (if_pos hlt)]
    exact ⟨fun h => (nomatch h), fun h => absurd hlt (Nat.not_lt.2 h)⟩
  · rw [frameOf_of_error (if_neg hlt)]
    exact ⟨fun _ => Nat.le_of_not_lt hlt, fun _ => rfl⟩

/-- Frames of one payload, one behind the other. -/
def copies (count : Nat) (payload : Bytes) : Bytes :=
  (List.replicate count (frameOf payload)).flatten

@[simp] theorem copies_zero (payload : Bytes) : copies 0 payload = [] := rfl

@[simp] theorem copies_one (payload : Bytes) : copies 1 payload = frameOf payload :=
  List.append_nil _

theorem copies_add (m n : Nat) (payload : Bytes) :
    copies (m + n) payload = copies m payload ++ copies n payload := by
  rw [copies, copies, copies, ← List.replicate_append_replicate, List.flatten_append]

theorem frameOf_ne_nil {payload frame : Bytes} (h : encode payload = .ok frame) :
    frameOf payload ≠ [] := by
  intro hnil
  rw [encode, if_neg (Nat.not_lt.2 (frameOf_eq_nil_iff.1 hnil))] at h
  cases h

namespace Stream

/-- Writing succeeds only if all is accepted. -/
theorem rest_of_write {bytes rest : Bytes} {s s' : Stream}
    (h : s.write bytes = (.done (.ok ()), rest, s')) : rest = [] := by
  unfold write at h
  split at h
  · exact (congrArg (·.2.1) h).symm
  · split at h
    · exact (congrArg (·.2.1) h).symm
    case isFalse =>
      have hresult := congrArg Prod.fst h
      unfold Refusal.result at hresult
      split at hresult <;> cases hresult

/-- Writing nothing always succeeds. -/
theorem write_nil (s : Stream) :
    ∃ s', s.write [] = (.done (.ok ()), [], s') ∧ s'.written = s.written := by
  unfold write
  split
  · exact ⟨_, rfl, List.append_nil _⟩
  · exact ⟨_, if_pos (Nat.zero_le _), List.append_nil _⟩

end Stream

namespace Link

/-- All bytes that were handed to the writer. -/
def out (l : Link) : Bytes :=
  l.stream.written ++ l.writer.queue

/-- A link at which nothing but writing was done. -/
structure OnlyWrites (l l' : Link) : Prop where
  reader : l'.reader = l.reader
  arrivals : l'.stream.arrivals = l.stream.arrivals
  ended : l'.stream.ended = l.stream.ended
  acceptance : l.stream.acceptance = .everything → l'.stream.acceptance = .everything

namespace OnlyWrites

variable {l l' l'' : Link}

@[refl] theorem refl (l : Link) : l.OnlyWrites l := ⟨rfl, rfl, rfl, id⟩

theorem trans (h : l.OnlyWrites l') (h' : l'.OnlyWrites l'') : l.OnlyWrites l'' :=
  ⟨h'.reader.trans h.reader, h'.arrivals.trans h.arrivals, h'.ended.trans h.ended,
    h'.acceptance ∘ h.acceptance⟩

end OnlyWrites

/-! ## Flushing -/

theorem out_flush (l : Link) : l.flush.2.out = l.out :=
  Stream.written_write l.writer.queue l.stream

theorem queue_of_flush {l l' : Link} (h : l.flush = (.done (.ok ()), l')) :
    l'.writer.queue = [] := by
  obtain ⟨hresult, rfl⟩ := Prod.mk.inj h
  exact Stream.rest_of_write (Prod.ext hresult rfl)

theorem queue_flush_of_empty {l : Link} (h : l.writer.queue = []) :
    l.flush.2.writer.queue = [] := by
  obtain ⟨s', hwrite, -⟩ := Stream.write_nil l.stream
  show (l.stream.write l.writer.queue).2.1 = []
  rw [h, hwrite]

theorem onlyWrites_flush (l : Link) : l.OnlyWrites l.flush.2 := by
  have hwrite : ∀ (s : Stream) (bytes : Bytes),
      (s.write bytes).2.2.arrivals = s.arrivals ∧ (s.write bytes).2.2.ended = s.ended ∧
        (s.acceptance = .everything → (s.write bytes).2.2.acceptance = .everything) := by
    intro s bytes
    unfold Stream.write
    split
    case h_1 h => exact ⟨rfl, rfl, fun _ => h⟩
    case h_2 h =>
      rw [h]
      split <;> exact ⟨rfl, rfl, fun h' => nomatch h'⟩
  obtain ⟨harrivals, hended, hacceptance⟩ := hwrite l.stream l.writer.queue
  exact ⟨rfl, harrivals, hended, hacceptance⟩

theorem flush_of_everything {l : Link} (h : l.stream.acceptance = .everything) :
    l.flush.1 = .done (.ok ()) := by
  show (l.stream.write l.writer.queue).1 = _
  rw [Stream.write, h]

theorem shutdown_eq (l : Link) :
    l.shutdown.1 = l.flush.1 ∧ l.shutdown.2.out = l.flush.2.out := by
  unfold shutdown Writer.shutdown flush
  rcases l.writer.flush l.stream with ⟨_ | _ | _, w, s⟩ <;> exact ⟨rfl, rfl⟩

theorem out_shutdown (l : Link) : l.shutdown.2.out = l.out := by
  rw [l.shutdown_eq.2, out_flush]

theorem shutdown_of_everything {l : Link} (h : l.stream.acceptance = .everything) :
    l.shutdown.1 = .done (.ok ()) :=
  l.shutdown_eq.1.trans (flush_of_everything h)

/-- Where nothing is queued, a shutdown writes nothing and does not wait. -/
theorem shutdown_of_empty {l : Link} (h : l.writer.queue = []) :
    ∃ l', l.shutdown = (.done (.ok ()), l') ∧ l'.stream.written = l.stream.written := by
  obtain ⟨s', hwrite, hwritten⟩ := Stream.write_nil l.stream
  refine ⟨{ l with stream := s'.shutdown, writer := ⟨[]⟩ }, ?_, hwritten⟩
  rw [shutdown, Writer.shutdown, Writer.flush, h, hwrite]

/-! ## Sending -/

/-- What the sending of a frame comes to. -/
inductive Sends (l : Link) (payload : Bytes) : Writer.Sending × Link → Prop
  /-- Too much was queued before, and could not be written. -/
  | held {l' : Link} (hfull : Writer.fullLength ≤ l.writer.queue.length)
      (hout : l'.out = l.out) : Sends l payload (.held, l')
  | queued {l' : Link} (hframe : frameOf payload ≠ [])
      (hout : l'.out = l.out ++ frameOf payload) : Sends l payload (.queued, l')
  /-- Everything is written. If the payload was skipped, what was queued may still be. -/
  | finished {l' : Link} (hout : l'.out = l.out ++ frameOf payload)
      (hqueue : l'.writer.queue = [] ∨
        frameOf payload = [] ∧ l'.writer.queue = l.writer.queue) :
      Sends l payload (.finished (.ok ()), l')
  /-- What was queued before could not be written. -/
  | refused {l' : Link} {fault : IoFault} (hfull : Writer.fullLength ≤ l.writer.queue.length)
      (hout : l'.out = l.out) : Sends l payload (.finished (.error fault), l')
  | failed {l' : Link} {fault : IoFault} (hframe : frameOf payload ≠ [])
      (hout : l'.out = l.out ++ frameOf payload) :
      Sends l payload (.finished (.error fault), l')

/-- Queues a frame and flushes. -/
def put (payload : Bytes) (l : Link) : Writer.Sending × Link :=
  let (result, writer, stream) := l.writer.put payload l.stream
  (result, { l with writer, stream })

theorem put_of_error {l : Link} {payload : Bytes} {fault : FrameFault}
    (h : encode payload = .error fault) : l.put payload = (.finished (.ok ()), l) := by
  unfold put Writer.put Writer.enqueue
  rw [h]
  rfl

/-- The link once a frame is queued. -/
def enqueued (frame : Bytes) (l : Link) : Link :=
  { l with writer := ⟨l.writer.queue ++ frame⟩ }

theorem out_enqueued (frame : Bytes) (l : Link) : (l.enqueued frame).out = l.out ++ frame :=
  (List.append_assoc ..).symm

theorem put_of_ok {l : Link} {payload frame : Bytes} (h : encode payload = .ok frame) :
    l.put payload =
      ((match (l.enqueued frame).flush.1 with
        | .waiting => .queued
        | .done result => .finished result), (l.enqueued frame).flush.2) := by
  unfold put Writer.put Writer.enqueue
  rw [h]
  show _ = ((match ((⟨l.writer.queue ++ frame⟩ : Writer).flush l.stream).1 with
    | .waiting => Writer.Sending.queued
    | .done result => .finished result), _)
  rcases hflush : (⟨l.writer.queue ++ frame⟩ : Writer).flush l.stream with ⟨_ | _, w, s⟩ <;>
    simp [Except.map, hflush, flush, enqueued]

theorem onlyWrites_put (payload : Bytes) (l : Link) : l.OnlyWrites (l.put payload).2 := by
  cases h : encode payload with
  | error fault => rw [put_of_error h]
  | ok frame =>
    have henqueued : l.OnlyWrites (l.enqueued frame) := ⟨rfl, rfl, rfl, id⟩
    rw [put_of_ok h]
    exact henqueued.trans (l.enqueued frame).onlyWrites_flush

/-- Whatever comes of it, the frame stands behind what was handed to the writer before. -/
theorem put_spec (payload : Bytes) (l : Link) :
    ∃ l', l'.out = l.out ++ frameOf payload ∧
      (frameOf payload ≠ [] ∧
          (l.put payload = (.queued, l') ∨
            ∃ fault, l.put payload = (.finished (.error fault), l')) ∨
        l.put payload = (.finished (.ok ()), l') ∧
          (l'.writer.queue = [] ∨
            frameOf payload = [] ∧ l'.writer.queue = l.writer.queue)) := by
  cases h : encode payload with
  | error fault =>
    have hskip := frameOf_of_error h
    rw [put_of_error h]
    exact ⟨l, by rw [hskip, List.append_nil], .inr ⟨rfl, .inr ⟨hskip, rfl⟩⟩⟩
  | ok frame =>
    rw [put_of_ok h]
    refine ⟨(l.enqueued frame).flush.2, ?_, ?_⟩
    · rw [out_flush, out_enqueued, frameOf_of_ok h]
    · match hflush : (l.enqueued frame).flush.1 with
      | .waiting => exact .inl ⟨frameOf_ne_nil h, .inl rfl⟩
      | .done (.error fault) => exact .inl ⟨frameOf_ne_nil h, .inr ⟨fault, rfl⟩⟩
      | .done (.ok ()) =>
        exact .inr ⟨rfl, .inl (queue_of_flush (Prod.ext hflush rfl))⟩

/-- A frame is put into a queue that is not full, or into one that was flushed. -/
theorem send_eq (payload : Bytes) (l : Link) :
    l.send payload =
      if l.writer.queue.length < Writer.fullLength then l.put payload
      else
        match l.flush with
        | (.waiting, l) => (.held, l)
        | (.done (.error fault), l) => (.finished (.error fault), l)
        | (.done (.ok ()), l) => l.put payload := by
  unfold send Writer.send Writer.ready flush
  by_cases hroom : l.writer.queue.length < Writer.fullLength
  · rw [if_pos hroom, if_pos hroom]
    rfl
  · rw [if_neg hroom, if_neg hroom]
    rcases l.writer.flush l.stream with ⟨_ | _ | _, w, s⟩ <;> rfl

theorem onlyWrites_send (payload : Bytes) (l : Link) : l.OnlyWrites (l.send payload).2 := by
  have hflush := l.onlyWrites_flush
  rw [send_eq]
  split
  · exact l.onlyWrites_put payload
  · split
    case h_1 h => rwa [h] at hflush
    case h_2 h => rwa [h] at hflush
    case h_3 h =>
      rw [h] at hflush
      exact hflush.trans (onlyWrites_put payload _)

theorem sends_send (payload : Bytes) (l : Link) : l.Sends payload (l.send payload) := by
  have hflushed := l.out_flush
  rw [send_eq]
  split
  case isTrue =>
    obtain ⟨l', hout, ⟨hframe, h | ⟨fault, h⟩⟩ | ⟨h, hqueue⟩⟩ := l.put_spec payload
    · exact h ▸ .queued hframe hout
    · exact h ▸ .failed hframe hout
    · exact h ▸ .finished hout hqueue
  case isFalse hroom =>
    have hfull := Nat.le_of_not_lt hroom
    split
    case h_1 h => exact .held hfull (by rwa [h] at hflushed)
    case h_2 h => exact .refused hfull (by rwa [h] at hflushed)
    case h_3 flushed h =>
      rw [h] at hflushed
      have hempty := queue_of_flush h
      obtain ⟨l', hout, ⟨hframe, h' | ⟨fault, h'⟩⟩ | ⟨h', hqueue⟩⟩ := flushed.put_spec payload
      · exact h' ▸ .queued hframe (hflushed ▸ hout)
      · exact h' ▸ .failed hframe (hflushed ▸ hout)
      · refine h' ▸ .finished (hflushed ▸ hout) (.inl ?_)
        rcases hqueue with hqueue | ⟨-, hqueue⟩
        · exact hqueue
        · exact hqueue.trans hempty

/-- With nothing queued before, a frame is taken at once. -/
theorem sends_of_empty {l l' : Link} {payload : Bytes} {sending : Writer.Sending}
    (h : l.Sends payload (sending, l')) (hempty : l.writer.queue = []) :
    sending ≠ .held ∧ l'.out = l.out ++ frameOf payload ∧
      (sending = .finished (.ok ()) → l'.writer.queue = []) := by
  have hroom : ¬Writer.fullLength ≤ l.writer.queue.length := by
    rw [hempty]
    decide
  cases h with
  | held hfull => exact absurd hfull hroom
  | refused hfull => exact absurd hfull hroom
  | queued _ hout => exact ⟨fun h => (nomatch h), hout, fun h => (nomatch h)⟩
  | failed _ hout => exact ⟨fun h => (nomatch h), hout, fun h => (nomatch h)⟩
  | finished hout hqueue =>
    refine ⟨fun h => (nomatch h), hout, fun _ => ?_⟩
    rcases hqueue with hqueue | ⟨-, hqueue⟩
    · exact hqueue
    · exact hqueue.trans hempty

/-- Sending succeeds where everything is accepted. -/
theorem send_of_everything {l : Link} (h : l.stream.acceptance = .everything)
    (payload : Bytes) : (l.send payload).1 = .finished (.ok ()) := by
  have hput : ∀ l : Link, l.stream.acceptance = .everything →
      (l.put payload).1 = .finished (.ok ()) := by
    intro l h
    cases hencode : encode payload with
    | error fault => rw [put_of_error hencode]
    | ok frame =>
      have hflush : (l.enqueued frame).flush.1 = .done (.ok ()) := flush_of_everything h
      rw [put_of_ok hencode, hflush]
  have hflush := flush_of_everything h
  have hwrites := l.onlyWrites_flush
  rw [send_eq]
  split
  · exact hput l h
  · rcases hl : l.flush with ⟨result, l'⟩
    rw [hl] at hflush hwrites
    obtain rfl : result = .done (.ok ()) := hflush
    exact hput l' (hwrites.acceptance h)

/-! ## Exchanges -/

theorem OnlyReads.out {l l' : Link} (h : l.OnlyReads l') : l'.out = l.out := by
  rw [Link.out, Link.out, h.written, h.writer]

/-- How many frames are still to be handed to the writer. -/
def Stage.due : Stage → Nat
  | .offering => 1
  | .flushing | .receiving => 0

def Exchange.due : Exchange → Nat
  | .waiting stage => stage.due
  | .finished _ => 0

theorem exchangeReceive_cases (l : Link) :
    ∃ l', l.OnlyReads l' ∧
      (l.exchangeReceive = (.waiting .receiving, l') ∨
        ∃ reception, l.exchangeReceive = (.finished (.ok reception), l')) := by
  refine ⟨_, l.onlyReads_receive, ?_⟩
  unfold exchangeReceive
  rcases l.receive with ⟨_ | reception, l'⟩
  · exact .inl rfl
  · exact .inr ⟨reception, rfl⟩

/-- Nothing is queued where it would not be written any more: while the other end's
frame is awaited, and where the own payload is skipped. -/
def Stage.Clean (stage : Stage) (payload : Bytes) (l : Link) : Prop :=
  stage = .receiving ∨ frameOf payload = [] → l.writer.queue = []

/-- What an exchange of frames comes to. -/
inductive Exchanges (l : Link) (payload : Bytes) (stage : Stage) : Exchange × Link → Prop
  | waiting {l' : Link} {stage' : Stage} {count : Nat} (hwrites : l.OnlyWrites l')
      (hout : l'.out = l.out ++ copies count payload) (hcount : count + stage'.due = stage.due)
      (hclean : stage.Clean payload l → stage'.Clean payload l') :
      Exchanges l payload stage (.waiting stage', l')
  | failed {l' : Link} {fault : IoFault} {count : Nat} (hwrites : l.OnlyWrites l')
      (hout : l'.out = l.out ++ copies count payload) (hcount : count ≤ stage.due)
      (hskip : frameOf payload = [] → l.writer.queue = [] → l'.writer.queue = []) :
      Exchanges l payload stage (.finished (.error fault), l')
  /-- The frame is written, and the other end's is read. -/
  | answered {l' : Link} (hwrites : l.OnlyWrites l')
      (hout : l'.out = l.out ++ copies stage.due payload)
      (hqueue : stage.Clean payload l → l'.writer.queue = []) :
      Exchanges l payload stage l'.exchangeReceive

theorem exchanges_offering (payload : Bytes) (l : Link) :
    l.Exchanges payload .offering (l.exchange payload .offering) := by
  have hwrites := l.onlyWrites_send payload
  have hsends := l.sends_send payload
  unfold exchange
  rcases hsend : l.send payload with ⟨sending, l'⟩
  rw [hsend] at hwrites hsends
  -- A payload that is skipped is neither held nor queued by an empty writer.
  have hempty : frameOf payload = [] → l.writer.queue = [] → l'.writer.queue = [] := by
    intro hskip hqueue
    obtain ⟨-, hout, hdone⟩ := sends_of_empty hsends hqueue
    cases hsends with
    | held hfull =>
      rw [hqueue] at hfull
      exact absurd hfull (by decide)
    | refused hfull =>
      rw [hqueue] at hfull
      exact absurd hfull (by decide)
    | queued hframe => exact absurd hskip hframe
    | failed hframe => exact absurd hskip hframe
    | finished => exact hdone rfl
  have hclean : ∀ stage' : Stage, stage' ≠ .receiving → Stage.offering.Clean payload l →
      stage'.Clean payload l' := by
    rintro stage' hstage' hclean (hreceiving | hskip)
    · exact absurd hreceiving hstage'
    · exact hempty hskip (hclean (.inr hskip))
  cases hsends with
  | held _ hout =>
    exact .waiting hwrites (hout.trans (List.append_nil _).symm) rfl
      (hclean .offering fun h => nomatch h)
  | queued _ hout =>
    rw [← copies_one] at hout
    exact .waiting hwrites hout rfl (hclean .flushing fun h => nomatch h)
  | refused _ hout =>
    exact .failed hwrites (hout.trans (List.append_nil _).symm) (Nat.zero_le 1) hempty
  | failed _ hout =>
    rw [← copies_one] at hout
    exact .failed hwrites hout (Nat.le_refl 1) hempty
  | finished hout hqueue =>
    rw [← copies_one] at hout
    refine .answered hwrites hout fun hclean' => ?_
    rcases hqueue with hqueue | ⟨hskip, hqueue⟩
    · exact hqueue
    · exact hqueue.trans (hclean' (.inr hskip))

theorem exchanges_flushing (payload : Bytes) (l : Link) :
    l.Exchanges payload .flushing (l.exchange payload .flushing) := by
  have hwrites := l.onlyWrites_flush
  have hout := l.out_flush
  have hempty := @queue_flush_of_empty l
  unfold exchange
  rcases hflush : l.flush with ⟨result, l'⟩
  rw [hflush] at hwrites hout hempty
  have hout' : l'.out = l.out ++ copies 0 payload := hout.trans (List.append_nil _).symm
  match result, hflush with
  | .waiting, _ =>
    refine .waiting hwrites hout' rfl ?_
    rintro hclean (hreceiving | hskip)
    · cases hreceiving
    · exact hempty (hclean (.inr hskip))
  | .done (.error fault), _ => exact .failed hwrites hout' (Nat.le_refl 0) fun _ => hempty
  | .done (.ok ()), hflush => exact .answered hwrites hout' fun _ => queue_of_flush hflush

theorem exchanges_exchange (payload : Bytes) (stage : Stage) (l : Link) :
    l.Exchanges payload stage (l.exchange payload stage) := by
  cases stage with
  | offering => exact l.exchanges_offering payload
  | flushing => exact l.exchanges_flushing payload
  | receiving =>
    exact .answered (.refl l) (List.append_nil _).symm fun hclean => hclean (.inl rfl)

/-- Where everything is accepted, an exchange only waits for the other end's frame. -/
theorem exchange_of_everything {l : Link} (h : l.stream.acceptance = .everything)
    (hempty : l.writer.queue = []) {stage : Stage} (hstage : stage ≠ .flushing) (payload : Bytes) :
    ∃ l', l.OnlyWrites l' ∧ l'.writer.queue = [] ∧
      l.exchange payload stage = l'.exchangeReceive := by
  cases stage with
  | flushing => exact absurd rfl hstage
  | receiving => exact ⟨l, .refl l, hempty, rfl⟩
  | offering =>
    have hsend := send_of_everything h payload
    have hwrites := l.onlyWrites_send payload
    have hsends := l.sends_send payload
    unfold exchange
    generalize l.send payload = result at hsend hwrites hsends ⊢
    obtain ⟨sending, l'⟩ := result
    obtain rfl : sending = .finished (.ok ()) := hsend
    exact ⟨l', hwrites, (sends_of_empty hsends hempty).2.2 rfl, rfl⟩

end Link

end Parley.Wire
