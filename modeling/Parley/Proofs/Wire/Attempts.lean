import Parley.Proofs.Wire.Payloads

/-!
# Attempts to write

A frame is offered to the writer, and then flushed. An attempt that fails or has to wait leaves
something queued, and the next one goes on with it.

- `Link.Delivers`: what one attempt comes to.
- `Link.sendOn`: the next attempt at a frame, by what was reached before.
- `Link.exchange_eq_sendOn`: an exchange gets its frame out, and then reads.
-/

namespace Parley.Wire.Link

variable {l : Link}

theorem queue_ne_nil_of_flush (h : l.flush.1 ≠ .done (.ok ())) :
    l.flush.2.writer.queue ≠ [] := by
  change (l.stream.write l.writer.queue).1 ≠ _ at h
  show (l.stream.write l.writer.queue).2.1 ≠ []
  unfold Stream.write at h ⊢
  split
  case h_1 haccept => exact absurd (by rw [haccept]) h
  case h_2 count refusal haccept =>
    rw [haccept] at h
    by_cases hle : l.writer.queue.length ≤ count
    · exact absurd (by simp only [if_pos hle]) h
    · rw [if_neg hle]
      exact fun hnil => hle (List.drop_eq_nil_iff.1 hnil)

/-- Sending that does not succeed leaves something queued. -/
theorem queue_ne_nil_of_send {payload : Bytes}
    (h : (l.send payload).1 ≠ .finished (.ok ())) : (l.send payload).2.writer.queue ≠ [] := by
  have hput : ∀ l : Link, (l.put payload).1 ≠ .finished (.ok ()) →
      (l.put payload).2.writer.queue ≠ [] := by
    intro l h
    cases hencode : encode payload with
    | error fault => exact absurd (by rw [put_of_error hencode]) h
    | ok frame =>
      rw [put_of_ok hencode] at h ⊢
      refine queue_ne_nil_of_flush fun hflush => h ?_
      rw [hflush]
  have hflush := queue_ne_nil_of_flush (l := l)
  rw [send_eq] at h ⊢
  split at h
  case isTrue hroom =>
    rw [if_pos hroom]
    exact hput l h
  case isFalse hroom =>
    rw [if_neg hroom]
    rcases hl : l.flush with ⟨_ | _ | _, l'⟩ <;> rw [hl] at h hflush
    · exact hflush fun h => nomatch h
    · exact hflush fun h => nomatch h
    · exact hput l' h

/-- What one attempt to get out a frame that is still to be queued, or what is queued already,
comes to. -/
inductive Delivers (l : Link) : Option Bytes → Writer.Sending × Link → Prop
  /-- The writer does not take the frame: much was queued, and could not be written. -/
  | refused {payload : Bytes} {sending : Writer.Sending} {l' : Link}
      (hsending : sending = .held ∨ ∃ fault, sending = .finished (.error fault))
      (hfull : Writer.fullLength ≤ l.writer.queue.length) (hleft : l'.writer.queue ≠ [])
      (hout : l'.out = l.out) : Delivers l (some payload) (sending, l')
  | taken {due : Option Bytes} {sending : Writer.Sending} {l' : Link}
      (hsending : sending ≠ .held) (hout : l'.out = l.out ++ due.elim [] frameOf)
      (hdone : sending = .finished (.ok ()) → (∀ payload ∈ due, Fits payload) →
        l'.writer.queue = []) : Delivers l due (sending, l')

theorem delivers_send (payload : Bytes) (l : Link) :
    l.Delivers (some payload) (l.send payload) := by
  have hsends := l.sends_send payload
  have hleft := @queue_ne_nil_of_send l payload
  generalize l.send payload = result at hsends hleft ⊢
  cases hsends with
  | held hfull hout => exact .refused (.inl rfl) hfull (hleft fun h => nomatch h) hout
  | refused hfull hout => exact .refused (.inr ⟨_, rfl⟩) hfull (hleft fun h => nomatch h) hout
  | queued _ hout => exact .taken (fun h => nomatch h) hout fun h => nomatch h
  | failed _ hout => exact .taken (fun h => nomatch h) hout fun h => nomatch h
  | finished hout hqueue =>
    refine .taken (fun h => nomatch h) hout fun _ hfits => ?_
    rcases hqueue with hqueue | ⟨hskip, -⟩
    · exact hqueue
    · exact absurd (frameOf_eq_nil_iff.1 hskip) (Nat.not_le.2 (hfits payload rfl))

/-- What is queued of a frame, or everything before the end of writing, is still to be written. -/
def sendingOf : Attempt (IoResult Unit) → Writer.Sending
  | .waiting => .queued
  | .done result => .finished result

theorem sendingOf_ne_held (attempt : Attempt (IoResult Unit)) : sendingOf attempt ≠ .held := by
  cases attempt <;> exact fun h => nomatch h

theorem delivers_flush (l : Link) : l.Delivers none (sendingOf l.flush.1, l.flush.2) := by
  refine .taken (sendingOf_ne_held _) (l.out_flush.trans (List.append_nil _).symm) fun hdone _ => ?_
  rcases hflush : l.flush with ⟨_ | result, l'⟩ <;> rw [hflush] at hdone
  · cases hdone
  · cases hdone
    exact queue_of_flush hflush

theorem delivers_shutdown (l : Link) :
    l.Delivers none (sendingOf l.shutdown.1, l.shutdown.2) := by
  have hwriter : l.shutdown.2.writer = l.flush.2.writer := by
    unfold shutdown Writer.shutdown flush
    rcases l.writer.flush l.stream with ⟨_ | _ | _, w, s⟩ <;> rfl
  have hflush := l.delivers_flush
  cases hflush with
  | taken hsending hout hdone =>
    rw [← l.shutdown_eq.1] at hsending hdone
    rw [← l.shutdown_eq.2] at hout
    rw [← hwriter] at hdone
    exact .taken hsending hout hdone

/-- The payload that is still to be queued. -/
def Stage.owed (payload? : Option Bytes) : Stage → Option Bytes
  | .offering => payload?
  | .flushing | .receiving => none

theorem Stage.mem_of_mem_owed {payload? : Option Bytes} {stage : Stage} {payload : Bytes}
    (h : payload ∈ stage.owed payload?) : payload ∈ payload? := by
  cases stage with
  | offering => exact h
  | flushing | receiving => cases h

/-- Goes on with getting a frame out. -/
def sendOn (payload : Bytes) (stage : Stage) (l : Link) : Writer.Sending × Link :=
  match stage with
  | .offering => l.send payload
  | .flushing | .receiving => (sendingOf l.flush.1, l.flush.2)

theorem delivers_sendOn (payload : Bytes) (stage : Stage) (l : Link) :
    l.Delivers (stage.owed (some payload)) (l.sendOn payload stage) := by
  cases stage with
  | offering => exact l.delivers_send payload
  | flushing | receiving => exact l.delivers_flush

/-- An exchange gets its frame out, and then reads. -/
theorem exchange_eq_sendOn {stage : Stage} (h : stage ≠ .receiving) (payload : Bytes) (l : Link) :
    l.exchange payload stage =
      match l.sendOn payload stage with
      | (.held, l) => (.waiting .offering, l)
      | (.queued, l) => (.waiting .flushing, l)
      | (.finished (.error fault), l) => (.finished (.error fault), l)
      | (.finished (.ok ()), l) => l.exchangeReceive := by
  cases stage with
  | offering => rfl
  | flushing =>
    rw [exchange, sendOn]
    rcases l.flush with ⟨_ | _ | _, l'⟩ <;> rfl
  | receiving => exact absurd rfl h

end Parley.Wire.Link
