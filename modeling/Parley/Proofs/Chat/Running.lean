import Parley.Proofs.Chat.Lines

/-!
# Runs

A run that is past the handshake takes lines from its queue and sends them, and hands
the lines it receives on to the node. A run that ends writes nothing new; what was queued
before may still be written.

- `Flow.Ends`: what the end of a run keeps.
- `Flow.Converses`: what a flow sends, and what it asks of its node.
-/

namespace Parley.Chat.Flow

open Wire

/-! ## The end of a run -/

/-- A flow whose run has ended, or only still has to write what is queued. -/
structure Ends (f f' : Flow) : Prop where
  id : f'.id = f.id
  out : f'.link.out = f.link.out
  state : f'.state = .closed
  disposed : f'.isDisposed = true
  remoteName : f'.remoteName = f.remoteName

theorem Ends.trans {f f' f'' : Flow} (h : f.Ends f') (h' : f'.Ends f'') : f.Ends f'' :=
  ⟨h'.id.trans h.id, h'.out.trans h.out, h'.state, h'.disposed, h'.remoteName.trans h.remoteName⟩

theorem ends_finishClosing {f : Flow} (hstate : f.state = .closed)
    (hdisposed : f.isDisposed = true) : f.Ends f.finishClosing.2 := by
  have hout := f.link.out_shutdown
  unfold finishClosing
  split
  · generalize f.link.shutdown = result at hout ⊢
    rcases result with ⟨_ | _, link⟩
    · exact ⟨rfl, hout, hstate, hdisposed, rfl⟩
    · exact ⟨rfl, hout, hstate, rfl, rfl⟩
  · exact ⟨rfl, rfl, hstate, hdisposed, rfl⟩

theorem ends_beginClosing (f : Flow) : f.Ends f.beginClosing.2 := by
  have hdisposed : isDisposed
      { f.cancel with
        state := .closed
        holding := if f.holding = .both then .writer else f.holding } = true := by
    cases f.holding <;> simp [isDisposed]
  obtain ⟨hid, hout, hstate, hdisposed', hname⟩ := ends_finishClosing rfl hdisposed
  exact ⟨hid, hout, hstate, hdisposed', hname⟩

theorem ends_releaseWriter {f : Flow} (hstate : f.state = .closed)
    (hdisposed : f.isDisposed = true) : f.Ends f.releaseWriter := by
  refine ⟨rfl, rfl, hstate, ?_, rfl⟩
  cases hholding : f.holding with
  | both => simp [isDisposed, hholding] at hdisposed
  | writer | nothing => simp [isDisposed, releaseWriter, hholding]

theorem ends_close (f : Flow) : f.Ends f.close.2 := by
  have hends := f.ends_beginClosing
  exact hends.trans (ends_releaseWriter hends.state hends.disposed)

/-- A run that ends has its result, or waits with it until all is written. -/
theorem conclude_cases (result : FlowResult) (f : Flow) :
    ∃ f', f.Ends f' ∧
      (f.conclude result = (.waiting (.closing result), f') ∨
        f.conclude result = (.finished result, f')) := by
  have hends := f.ends_beginClosing
  unfold conclude
  generalize f.beginClosing = closing at hends ⊢
  rcases closing with ⟨_ | _, f'⟩
  · exact ⟨f', hends, .inl rfl⟩
  · exact ⟨f', hends, .inr rfl⟩

/-- So does a run that still has to write what is queued. -/
theorem poll_closing_cases {f : Flow} (hstate : f.state = .closed) (hdisposed : f.isDisposed = true)
    (result : FlowResult) (n : Node) :
    ∃ f', f.Ends f' ∧
      (f.poll (.closing result) n = (.waiting (.closing result), f', []) ∨
        f.poll (.closing result) n = (.finished result, f', [])) := by
  have hends := ends_finishClosing hstate hdisposed
  unfold poll
  generalize f.finishClosing = closing at hends ⊢
  obtain ⟨_ | _, f'⟩ := closing
  · exact ⟨f', hends, .inl rfl⟩
  · exact ⟨f', hends, .inr rfl⟩

theorem finishClosing_of_everything {f : Flow} (h : f.link.stream.acceptance = .everything) :
    ∃ f', f.finishClosing = (.done (), f') := by
  have hshutdown := Link.shutdown_of_everything h
  unfold finishClosing
  split
  · generalize f.link.shutdown = closing at hshutdown ⊢
    obtain ⟨attempt, link⟩ := closing
    obtain rfl : attempt = .done (.ok ()) := hshutdown
    exact ⟨_, rfl⟩
  · exact ⟨_, rfl⟩

/-- Where everything is accepted, a run ends at once. -/
theorem conclude_of_everything {f : Flow} (h : f.link.stream.acceptance = .everything)
    (result : FlowResult) :
    ∃ f', f.conclude result = (.finished result, f') ∧ f.Ends f' := by
  let closed : Flow :=
    { f.cancel with
      state := .closed
      holding := if f.holding = .both then .writer else f.holding }
  obtain ⟨f', hclosing⟩ := finishClosing_of_everything (f := closed) h
  have hbegin : f.beginClosing = (.done (), f') := hclosing
  have hends := f.ends_beginClosing
  rw [hbegin] at hends
  exact ⟨f', by rw [conclude, hbegin], hends⟩

/-- So does a run with nothing left to write. -/
theorem conclude_of_empty {f : Flow} (h : f.link.writer.queue = []) (result : FlowResult) :
    ∃ f', f.conclude result = (.finished result, f') ∧ f.Ends f' ∧ f'.holding = .nothing ∧
      f'.link.stream.written = f.link.stream.written := by
  let closed : Flow :=
    { f.cancel with
      state := .closed
      holding := if f.holding = .both then .writer else f.holding }
  have hclosing : ∃ f', closed.finishClosing = (.done (), f') ∧ f'.holding = .nothing ∧
      f'.link.stream.written = f.link.stream.written := by
    unfold finishClosing
    split
    case isTrue =>
      obtain ⟨link, hshutdown, hwritten⟩ := Link.shutdown_of_empty (l := closed.link) h
      rw [hshutdown]
      exact ⟨_, rfl, rfl, hwritten⟩
    case isFalse hwriter =>
      refine ⟨closed, rfl, ?_, rfl⟩
      show (if f.holding = .both then Holding.writer else f.holding) = .nothing
      change (if f.holding = .both then Holding.writer else f.holding) ≠ .writer at hwriter
      cases hholding : f.holding with
      | both | writer => exact absurd (by rw [hholding]; rfl) hwriter
      | nothing => rfl
  obtain ⟨f', hdone, hholding, hwritten⟩ := hclosing
  have hbegin : f.beginClosing = (.done (), f') := hdone
  have hends := f.ends_beginClosing
  rw [hbegin] at hends
  exact ⟨f', by rw [conclude, hbegin], hends, hholding, hwritten⟩

theorem id_conclude (result : FlowResult) (f : Flow) : (f.conclude result).2.id = f.id := by
  obtain ⟨f', hends, hresult | hresult⟩ := f.conclude_cases result <;>
    rw [hresult] <;> exact hends.id

/-! ## Both directions -/

/-- What going on with both directions comes to. -/
inductive Converses (n : Node) (outbox : Outbox) (f : Flow) :
    RunProgress × Flow × List Request → Prop
  /-- The flow was asked to stop. -/
  | stopped {result : FlowResult} : Converses n outbox f (.finished result, f, [])
  /-- Some lines are sent, and those that are heard go to the node. -/
  | went {progress : RunProgress} {taken left heard : List String} {link : Link}
      (hpending : n.pending outbox = taken ++ left)
      (hout : link.out = f.link.out ++ frameLines taken)
      (hwaiting : ∀ phase, progress = .waiting phase → ∃ sending receiving,
        phase = .pumping outbox sending receiving ∧ sending.Ready link) :
      Converses n outbox f
        (progress, { f with link }, .setPending outbox left :: f.consumeAll heard)

theorem converses_converse {n : Node} {outbox : Outbox} {sending : SendStage} {f : Flow}
    (hready : sending.Ready f.link) (receiving : ReceiveStage) :
    Converses n outbox f (f.converse outbox sending receiving n) := by
  unfold converse
  split
  · exact .stopped
  · rcases hout : pumpOut (n.isEnded outbox) sending (n.pending outbox) f.link with
      ⟨sent, left, link⟩
    obtain ⟨taken, hsends⟩ := pumpOut_spec hready hout
    match sent with
    | .finished result =>
      show Converses n outbox f
        (.finished result, { f with link }, .setPending outbox left :: f.consumeAll [])
      exact .went hsends.lines_eq hsends.out fun phase hphase => nomatch hphase
    | .waiting sending' =>
      have hreads := onlyReads_pumpIn receiving link
      have hready' := (hsends.ready sending' rfl).of_onlyReads hreads
      have hout' := hreads.out.trans hsends.out
      dsimp only
      generalize pumpIn receiving link = received at hreads hready' hout' ⊢
      obtain ⟨received, heard, link'⟩ := received
      cases received with
      | finished result => exact .went hsends.lines_eq hout' fun phase hphase => nomatch hphase
      | waiting receiving' =>
        refine .went hsends.lines_eq hout' fun phase hphase => ?_
        cases hphase
        exact ⟨sending', receiving', rfl, hready'⟩

/-- Where everything is accepted, a flow that waits has sent all lines of its queue. -/
theorem converse_of_everything {n : Node} {outbox : Outbox} {sending : SendStage}
    {receiving : ReceiveStage} {f f' : Flow} {phase : Phase} {requests : List Request}
    (hready : sending.Ready f.link) (hended : n.isEnded outbox = false)
    (haccepts : f.link.stream.acceptance = .everything)
    (h : f.converse outbox sending receiving n = (.waiting phase, f', requests)) :
    f'.link.writer.queue = [] ∧ f'.link.out = f.link.out ++ frameLines (n.pending outbox) := by
  unfold converse at h
  split at h
  · cases h
  · have hidle : (pumpOut false sending (n.pending outbox) f.link).1 = .waiting .idle :=
      pumpOut_of_everything hready haccepts
    rw [hended] at h
    rcases hout : pumpOut false sending (n.pending outbox) f.link with ⟨sent, left, link⟩
    obtain ⟨taken, hsends⟩ := pumpOut_spec hready hout
    rw [hout] at h hidle
    obtain rfl : sent = .waiting .idle := hidle
    obtain ⟨rfl, -⟩ := hsends.idle rfl
    have hreads := onlyReads_pumpIn receiving link
    have hempty : link.writer.queue = [] := hsends.ready .idle rfl
    dsimp only at h
    generalize pumpIn receiving link = received at h hreads
    obtain ⟨_ | result, heard, link'⟩ := received
    · cases h
      refine ⟨(congrArg Writer.queue hreads.writer).trans hempty, ?_⟩
      rw [hsends.lines_eq, List.append_nil]
      exact hreads.out.trans hsends.out
    · cases h

/-- The same for a run that goes on. -/
theorem pump_of_everything {n : Node} {outbox : Outbox} {sending sending' : SendStage}
    {receiving receiving' : ReceiveStage} {f f' : Flow} {requests : List Request}
    (hready : sending.Ready f.link) (hended : n.isEnded outbox = false)
    (haccepts : f.link.stream.acceptance = .everything)
    (h : f.pump outbox sending receiving n =
      (.waiting (.pumping outbox sending' receiving'), f', requests)) :
    f'.link.writer.queue = [] ∧ f'.link.out = f.link.out ++ frameLines (n.pending outbox) := by
  unfold pump at h
  split at h
  case h_1 phase f₁ requests₁ hconverse =>
    cases h
    exact converse_of_everything hready hended haccepts hconverse
  case h_2 result f₁ requests₁ hconverse =>
    obtain ⟨f₂, -, hresult | hresult⟩ := f₁.conclude_cases result <;>
    · rw [hresult] at h
      cases h

end Parley.Chat.Flow
