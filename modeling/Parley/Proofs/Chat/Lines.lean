import Parley.Chat.Flow
import Parley.Proofs.Text.RoundTrip
import Parley.Proofs.Wire.Writing

/-!
# Lines in frames

Sending takes lines from the front of a queue and puts a frame for each behind what was
written before. Receiving takes frames from the front of what arrived and makes a line
of each, up to the first frame that cannot be read.

- `frameLines`: the bytes that lines are sent as.
- `pumpOut_spec`: what sending lines comes to.
- `spoken`: the lines in frames.
- `hearsLines_receiveLines`: what receiving lines comes to.
-/

namespace Parley.Chat

open Wire

/-! ## Sending -/

/-- The bytes that lines are sent as: a frame for each that is not empty. -/
def frameLines (lines : List String) : Bytes :=
  (lines.filter fun line => !line.isEmpty).flatMap fun line => frameOf (Text.Utf8.encode line)

@[simp] theorem frameLines_nil : frameLines [] = [] := rfl

theorem frameLines_append (lines more : List String) :
    frameLines (lines ++ more) = frameLines lines ++ frameLines more := by
  rw [frameLines, List.filter_append, List.flatMap_append]
  rfl

theorem frameLines_cons_of_empty {line : String} (h : line.isEmpty = true)
    (lines : List String) : frameLines (line :: lines) = frameLines lines := by
  rw [frameLines, List.filter_cons_of_neg (by simp [h])]
  rfl

theorem frameLines_cons {line : String} (h : ¬line.isEmpty = true) (lines : List String) :
    frameLines (line :: lines) = frameOf (Text.Utf8.encode line) ++ frameLines lines := by
  rw [frameLines, List.filter_cons_of_pos (by simp [h]), List.flatMap_cons]
  rfl

/-- When a line is to be sent, nothing that was sent before is still queued. -/
def SendStage.Ready : SendStage → Link → Prop
  | .idle, l => l.writer.queue = []
  | .holding _, _ => False
  | .flushing, _ => True

theorem SendStage.Ready.of_onlyReads {stage : SendStage} {l l' : Link} (h : stage.Ready l)
    (hreads : l.OnlyReads l') : stage.Ready l' := by
  cases stage with
  | idle => exact (congrArg Writer.queue hreads.writer).trans h
  | holding => exact h
  | flushing => trivial

/-- What sending lines comes to: it takes some from the front, and their frames go behind
what was handed to the writer before. -/
structure SendsLines (ended : Bool) (lines : List String) (l : Link) (sent : Sent)
    (left : List String) (l' : Link) (taken : List String) : Prop where
  lines_eq : lines = taken ++ left
  writes : l.OnlyWrites l'
  out : l'.out = l.out ++ frameLines taken
  ready : ∀ stage, sent = .waiting stage → stage.Ready l'
  idle : sent = .waiting .idle → left = [] ∧ ended = false

section Sending

variable {ended : Bool} {lines left taken : List String} {l l' l'' : Link} {sent : Sent}
  {line : String}

theorem SendsLines.cons_of_empty (h : SendsLines ended lines l sent left l' taken)
    (hline : line.isEmpty = true) :
    SendsLines ended (line :: lines) l sent left l' (line :: taken) where
  lines_eq := congrArg (line :: ·) h.lines_eq
  writes := h.writes
  out := by rw [frameLines_cons_of_empty hline, h.out]
  ready := h.ready
  idle := h.idle

/-- The frame of one line, and those of the lines behind it. -/
theorem SendsLines.cons (h : SendsLines ended lines l' sent left l'' taken)
    (hline : ¬line.isEmpty = true) (hwrites : l.OnlyWrites l')
    (hout : l'.out = l.out ++ frameOf (Text.Utf8.encode line)) :
    SendsLines ended (line :: lines) l sent left l'' (line :: taken) where
  lines_eq := congrArg (line :: ·) h.lines_eq
  writes := hwrites.trans h.writes
  out := by rw [frameLines_cons hline, h.out, hout, List.append_assoc]
  ready := h.ready
  idle := h.idle

/-- Sending stops with the line that was just taken. -/
theorem sendsLines_stopped (hline : ¬line.isEmpty = true) (hwrites : l.OnlyWrites l')
    (hout : l'.out = l.out ++ frameOf (Text.Utf8.encode line))
    (hready : ∀ stage, sent = .waiting stage → stage.Ready l')
    (hidle : sent ≠ .waiting .idle) :
    SendsLines ended (line :: lines) l sent lines l' [line] where
  lines_eq := rfl
  writes := hwrites
  out := by rw [frameLines_cons hline, frameLines_nil, List.append_nil, hout]
  ready := hready
  idle h := absurd h hidle

theorem sendLines_spec (ended : Bool) (lines : List String) {l : Link}
    (hempty : l.writer.queue = []) {sent : Sent} {left : List String} {l' : Link}
    (h : sendLines ended lines l = (sent, left, l')) :
    ∃ taken, SendsLines ended lines l sent left l' taken := by
  -- A line that is sent leaves the writer empty, so that the next one is not held.
  induction lines generalizing l with
  | nil =>
    rw [sendLines] at h
    obtain ⟨rfl, hrest⟩ := Prod.mk.inj h
    obtain ⟨rfl, rfl⟩ := Prod.mk.inj hrest
    have hout : l.out = l.out ++ frameLines [] := (List.append_nil _).symm
    refine ⟨[], rfl, .refl l, hout, fun stage hstage => ?_, fun hidle => ?_⟩
    · cases ended with
      | true => cases hstage
      | false =>
        cases hstage
        exact hempty
    · cases ended with
      | true => cases hidle
      | false => exact ⟨rfl, rfl⟩
  | cons line lines ih =>
    rw [sendLines] at h
    split at h
    case isTrue hline =>
      obtain ⟨taken, htaken⟩ := ih hempty h
      exact ⟨line :: taken, htaken.cons_of_empty hline⟩
    case isFalse hline =>
      have hwrites := l.onlyWrites_send (Text.Utf8.encode line)
      have hsends := l.sends_send (Text.Utf8.encode line)
      rcases hsend : l.send (Text.Utf8.encode line) with ⟨sending, l₁⟩
      rw [hsend] at h hwrites hsends
      obtain ⟨hheld, hout, hdone⟩ := Link.sends_of_empty hsends hempty
      match sending, h, hheld, hdone with
      | .held, _, hheld, _ => exact absurd rfl hheld
      | .queued, h, _, _ =>
        cases h
        refine ⟨[line], sendsLines_stopped hline hwrites hout (fun stage hstage => ?_)
          fun hidle => nomatch hidle⟩
        cases hstage
        trivial
      | .finished (.error fault), h, _, _ =>
        cases h
        exact ⟨[line], sendsLines_stopped hline hwrites hout (fun stage hstage => nomatch hstage)
          fun hidle => nomatch hidle⟩
      | .finished (.ok ()), h, _, hdone =>
        obtain ⟨taken, htaken⟩ := ih (hdone rfl) h
        exact ⟨line :: taken, htaken.cons hline hwrites hout⟩

/-- Going on with sending lines is sending lines, once what was queued is written. -/
theorem pumpOut_spec {ended : Bool} {stage : SendStage} {lines : List String} {l : Link}
    (hready : stage.Ready l) {sent : Sent} {left : List String} {l' : Link}
    (h : pumpOut ended stage lines l = (sent, left, l')) :
    ∃ taken, SendsLines ended lines l sent left l' taken := by
  match stage, hready with
  | .idle, hempty => exact sendLines_spec ended lines hempty h
  | .flushing, _ =>
    have hwrites := l.onlyWrites_flush
    have hout := l.out_flush
    unfold pumpOut at h
    rcases hflush : l.flush with ⟨result, l₁⟩
    rw [hflush] at h hwrites hout
    have hout' : l₁.out = l.out ++ frameLines [] := hout.trans (List.append_nil _).symm
    match result, h, hflush with
    | .waiting, h, _ =>
      cases h
      refine ⟨[], rfl, hwrites, hout', fun stage hstage => ?_, fun hidle => nomatch hidle⟩
      cases hstage
      trivial
    | .done (.error fault), h, _ =>
      cases h
      exact ⟨[], rfl, hwrites, hout', fun stage hstage => (nomatch hstage),
        fun hidle => (nomatch hidle)⟩
    | .done (.ok ()), h, hflush =>
      obtain ⟨taken, htaken⟩ := sendLines_spec ended lines (Link.queue_of_flush hflush) h
      refine ⟨taken, htaken.lines_eq, hwrites.trans htaken.writes, ?_, htaken.ready, htaken.idle⟩
      rw [htaken.out]
      exact congrArg (· ++ frameLines taken) hout

/-- Where everything is accepted, lines are sent until there are no more. -/
theorem sendLines_of_everything (ended : Bool) (lines : List String) {l : Link}
    (h : l.stream.acceptance = .everything) :
    (sendLines ended lines l).1 = if ended then .finished (.ok ()) else .waiting .idle := by
  induction lines generalizing l with
  | nil => rfl
  | cons line lines ih =>
    rw [sendLines]
    split
    · exact ih h
    · have hsend := Link.send_of_everything h (Text.Utf8.encode line)
      have hwrites := l.onlyWrites_send (Text.Utf8.encode line)
      generalize l.send (Text.Utf8.encode line) = result at hsend hwrites ⊢
      obtain ⟨sending, l'⟩ := result
      obtain rfl : sending = .finished (.ok ()) := hsend
      exact ih (hwrites.acceptance h)

theorem pumpOut_of_everything {stage : SendStage} {ended : Bool} {lines : List String} {l : Link}
    (hready : stage.Ready l) (h : l.stream.acceptance = .everything) :
    (pumpOut ended stage lines l).1 = if ended then .finished (.ok ()) else .waiting .idle := by
  match stage, hready with
  | .idle, _ => exact sendLines_of_everything ended lines h
  | .flushing, _ =>
    have hflush := Link.flush_of_everything h
    have hwrites := l.onlyWrites_flush
    unfold pumpOut
    generalize l.flush = result at hflush hwrites ⊢
    obtain ⟨result, l'⟩ := result
    obtain rfl : result = .done (.ok ()) := hflush
    exact sendLines_of_everything ended lines (hwrites.acceptance h)

end Sending

/-! ## Receiving -/

theorem onlyReads_readLine (l : Link) : l.OnlyReads (readLine l).2 := by
  have hreads := l.onlyReads_receive
  unfold readLine
  generalize l.receive = result at hreads ⊢
  rcases result with ⟨_ | reception, l'⟩
  · exact hreads
  · dsimp only
    split <;> exact hreads

theorem onlyReads_probeLine (l : Link) : l.OnlyReads (probeLine l).2 := by
  have hprobes := l.onlyReads_awaitData
  unfold probeLine
  generalize l.awaitData = result at hprobes ⊢
  rcases result with ⟨_ | _ | _ | _, l'⟩
  · exact hprobes
  · exact hprobes
  · exact hprobes
  · exact hprobes.trans (onlyReads_readLine l')

/-- Receives one line, from where that stands. -/
def nextLine (stage : ReceiveStage) (l : Link) : Except Received String × Link :=
  match stage with
  | .probing => probeLine l
  | .reading => readLine l

theorem onlyReads_nextLine (stage : ReceiveStage) (l : Link) :
    l.OnlyReads (nextLine stage l).2 := by
  cases stage with
  | probing => exact onlyReads_probeLine l
  | reading => exact onlyReads_readLine l

theorem receiveLines_succ (room : Nat) (stage : ReceiveStage) (l : Link) :
    receiveLines (room + 1) stage l =
      match nextLine stage l with
      | (.error stopped, l) => (stopped, [], l)
      | (.ok line, l) =>
        let (stopped, lines, l) := receiveLines room .probing l
        (stopped, line :: lines, l) := by
  cases stage <;> rfl

/-- Receiving lines writes nothing. -/
theorem onlyReads_receiveLines (room : Nat) (stage : ReceiveStage) (l : Link) :
    l.OnlyReads (receiveLines room stage l).2.2 := by
  induction room generalizing stage l with
  | zero => exact .refl l
  | succ room ih =>
    have hnext := onlyReads_nextLine stage l
    rw [receiveLines_succ]
    generalize nextLine stage l = result at hnext ⊢
    rcases result with ⟨_ | line, l'⟩
    · exact hnext
    · exact hnext.trans (ih .probing l')

theorem onlyReads_pumpIn (stage : ReceiveStage) (l : Link) : l.OnlyReads (pumpIn stage l).2.2 :=
  onlyReads_receiveLines (l.available + 1) stage l

/-- The lines in frames, up to the first that cannot be read. -/
def spoken : List FrameEvent → List String
  | .ok payload :: events => Text.Utf8.decodeLossy payload :: spoken events
  | _ => []

/-- Bytes are never read as the empty text. -/
theorem isEmpty_decodeLossy {payload : Bytes} (h : payload ≠ []) :
    (Text.Utf8.decodeLossy payload).isEmpty = false := by
  rw [Bool.eq_false_iff, Ne, String.isEmpty_iff]
  exact Text.Utf8.decodeLossy_ne_empty h

/-- What receiving one line comes to, by the bytes that arrived. -/
inductive HearsLine (unread : Bytes) (ended : Bool) : Except Received String × Link → Prop
  | line {payload rest : Bytes} {l' : Link}
      (hcut : cutFrame unread = some (.ok payload, rest)) (htidy : l'.Tidy rest) :
      HearsLine unread ended (.ok (Text.Utf8.decodeLossy payload), l')
  | stop {l' : Link} (hcut : ∀ payload rest, cutFrame unread ≠ some (.ok payload, rest))
      (hended : cutFrame unread = none → ended = true) :
      HearsLine unread ended (.error (.finished (.ok ())), l')
  | wait {stage : ReceiveStage} {l' : Link} (hcut : cutFrame unread = none)
      (hended : ended = false) (htidy : l'.Tidy unread) :
      HearsLine unread ended (.error (.waiting stage), l')

theorem hearsLine_readLine {l : Link} {unread : Bytes} (h : l.Tidy unread) :
    HearsLine unread l.stream.ended (readLine l) := by
  have hreads := Link.reads_receive h
  unfold readLine
  generalize l.receive = result at hreads ⊢
  obtain ⟨attempt, l'⟩ := result
  cases hreads with
  | @frame payload rest _ _ hcut htidy =>
    have htext : (Reception.frame payload).text = Text.Utf8.decodeLossy payload := rfl
    simp only [htext, isEmpty_decodeLossy (payload_ne_nil_of_cutFrame hcut), Bool.false_eq_true,
      if_false]
    exact .line hcut htidy
  | @stop reception _ _ hcut hended hpayload =>
    have htext : reception.text.isEmpty = true := by
      rw [Reception.text, hpayload]
      rfl
    simp only [htext, if_true]
    exact .stop hcut hended
  | wait hcut hended htidy => exact .wait hcut hended htidy

theorem hearsLine_nextLine {l : Link} {unread : Bytes} (h : l.Tidy unread)
    (stage : ReceiveStage) : HearsLine unread l.stream.ended (nextLine stage l) := by
  cases stage with
  | reading => exact hearsLine_readLine h
  | probing =>
    have hprobes := Link.probes_awaitData h
    have hsame := l.onlyReads_awaitData.ended
    unfold nextLine probeLine
    generalize l.awaitData = result at hprobes hsame ⊢
    obtain ⟨attempt, l'⟩ := result
    cases hprobes with
    | data htidy =>
      have hreads := hearsLine_readLine htidy
      rwa [hsame] at hreads
    | stop hcut hended =>
      refine .stop (fun payload rest hsome => ?_) fun _ => hended
      rw [hcut] at hsome
      cases hsome
    | wait hcut hended htidy => exact .wait hcut hended htidy

/-- What receiving lines comes to, by the bytes that arrived. If the stream has ended,
no more will arrive. -/
inductive HearsLines (unread : Bytes) (ended : Bool) : Received × List String × Link → Prop
  | wait {stage : ReceiveStage} {lines : List String} {rest : Bytes} {l' : Link}
      (hspoken : ∀ more, spoken (frames (unread ++ more)) =
        lines ++ spoken (frames (rest ++ more)))
      (hlength : rest.length + lines.length ≤ unread.length) (htidy : l'.Tidy rest) :
      HearsLines unread ended (.waiting stage, lines, l')
  | stop {lines : List String} {l' : Link}
      (hspoken : ∀ more, (ended = true → more = []) →
        spoken (frames (unread ++ more)) = lines) :
      HearsLines unread ended (.finished (.ok ()), lines, l')

theorem spoken_of_cut {unread payload rest : Bytes}
    (h : cutFrame unread = some (.ok payload, rest)) (more : Bytes) :
    spoken (frames (unread ++ more)) =
      Text.Utf8.decodeLossy payload :: spoken (frames (rest ++ more)) := by
  rw [frames_of_cut (cutFrame_append h more), spoken]

/-- Without a frame in front there is no line. -/
theorem spoken_of_stop {unread : Bytes} {ended : Bool}
    (hcut : ∀ payload rest, cutFrame unread ≠ some (.ok payload, rest))
    (hended : cutFrame unread = none → ended = true) {more : Bytes}
    (hmore : ended = true → more = []) : spoken (frames (unread ++ more)) = [] := by
  match h : cutFrame unread with
  | some (.ok payload, rest) => exact absurd h (hcut payload rest)
  | some (.error fault, rest) =>
    rw [frames_of_cut (cutFrame_append h more)]
    rfl
  | none =>
    rw [hmore (hended h), List.append_nil, frames_of_short h]
    rfl

/-- Receiving takes the lines that are spoken, in order. -/
theorem hearsLines_receiveLines (room : Nat) {l : Link} {unread : Bytes} (h : l.Tidy unread)
    (stage : ReceiveStage) : HearsLines unread l.stream.ended (receiveLines room stage l) := by
  -- Each round takes one frame from the front of what is unread.
  induction room generalizing l unread stage with
  | zero => exact .wait (fun _ => rfl) (Nat.le_refl _) h
  | succ room ih =>
    have hnext := hearsLine_nextLine h stage
    have hended := (onlyReads_nextLine stage l).ended
    rw [receiveLines_succ]
    generalize nextLine stage l = result at hnext hended ⊢
    obtain ⟨attempt, l'⟩ := result
    cases hnext with
    | stop hcut hend => exact .stop fun more hmore => spoken_of_stop hcut hend hmore
    | wait hcut hend htidy => exact .wait (fun _ => rfl) (Nat.le_refl _) htidy
    | @line payload rest _ hcut htidy =>
      have hrest := ih htidy .probing
      have hlt := length_lt_of_cutFrame hcut
      have hspoken := spoken_of_cut hcut
      rw [show l'.stream.ended = l.stream.ended from hended] at hrest
      dsimp only
      generalize receiveLines room .probing l' = result at hrest ⊢
      obtain ⟨received, lines, l''⟩ := result
      cases hrest with
      | stop hstop =>
        exact .stop fun more hmore => by rw [hspoken more, hstop more hmore]
      | @wait _ _ rest' _ hwait hlength htidy' =>
        refine .wait (fun more => ?_) ?_ htidy'
        · rw [hspoken more, hwait more]
          rfl
        · show rest'.length + (lines.length + 1) ≤ unread.length
          omega

/-- The shortest frame has one byte behind its prefix. -/
def shortestFrame : Nat := prefixLength + 1

/-- Behind the end of the stream receiving does not wait, with room for all lines. -/
theorem receiveLines_of_ended {room : Nat} {l : Link} {unread : Bytes} (h : l.Tidy unread)
    (hended : l.stream.ended = true) (hroom : unread.length < shortestFrame * room)
    (stage : ReceiveStage) :
    ∃ lines l', receiveLines room stage l = (.finished (.ok ()), lines, l') := by
  -- Each round takes a frame, so that the rounds outlast what is unread.
  induction room generalizing l unread stage with
  | zero => exact absurd hroom (Nat.not_lt_zero _)
  | succ room ih =>
    have hnext := hearsLine_nextLine h stage
    have hreads := onlyReads_nextLine stage l
    rw [receiveLines_succ]
    generalize nextLine stage l = result at hnext hreads ⊢
    obtain ⟨attempt, l'⟩ := result
    cases hnext with
    | stop => exact ⟨[], l', rfl⟩
    | wait _ hfalse => exact absurd hended (by rw [hfalse]; decide)
    | @line payload rest _ hcut htidy =>
      have hlength := length_of_cutFrame hcut
      have hpos := List.length_pos_iff.2 (payload_ne_nil_of_cutFrame hcut)
      have hrest : rest.length < shortestFrame * room := by
        simp only [shortestFrame, prefixLength] at hroom hlength ⊢
        omega
      obtain ⟨lines, l'', hreceive⟩ := ih htidy (hreads.ended.trans hended) hrest .probing
      dsimp only
      rw [hreceive]
      exact ⟨_, l'', rfl⟩

theorem pumpIn_of_ended {l : Link} {unread : Bytes} (h : l.Tidy unread)
    (hended : l.stream.ended = true) (stage : ReceiveStage) :
    ∃ lines l', pumpIn stage l = (.finished (.ok ()), lines, l') := by
  have hlength := h.length_le
  refine receiveLines_of_ended h hended ?_ stage
  simp only [shortestFrame, prefixLength] at hlength ⊢
  omega

end Parley.Chat
