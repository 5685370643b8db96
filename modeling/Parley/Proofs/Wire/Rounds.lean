import Parley.Proofs.Wire.Attempts

/-!
# Rounds of an exchange

One round of an exchange on a stream where a writer that finds no room waits. It comes to one of
three things: the own frame is not yet written and there is no more room, or all of it is written
and the other end's frame is not there yet, or the other end's frame is taken.

- `Stream.Allows`: how much may be written to a stream.
- `Link.Advances`: what no step of an exchange takes back.
- `Link.Rounds`, `Link.rounds_exchange`: what a round comes to.
-/

namespace Parley.Wire

/-! ## Room for writing -/

namespace Stream

/-- Whether a writer waits that has written up to the limit, if there is one. -/
def Allows (s : Stream) : Option Nat → Prop
  | none => s.acceptance = .everything
  | some limit => ∃ count, s.acceptance = .upTo count .block ∧ s.written.length + count = limit

theorem Allows.of_eq {s s' : Stream} {limit : Option Nat} (h : s.Allows limit)
    (hacceptance : s'.acceptance = s.acceptance) (hwritten : s'.written = s.written) :
    s'.Allows limit := by
  cases limit with
  | none => exact hacceptance.trans h
  | some limit =>
    obtain ⟨count, haccept, hcount⟩ := h
    exact ⟨count, hacceptance.trans haccept, by rw [hwritten, hcount]⟩

/-- Writing either finishes, or stops at the limit. -/
theorem write_of_allows {s : Stream} {limit : Option Nat} (h : s.Allows limit) (bytes : Bytes) :
    s.written <+: (s.write bytes).2.2.written ∧ (s.write bytes).2.2.Allows limit ∧
      ((s.write bytes).1 = .done (.ok ()) ∧ (s.write bytes).2.1 = [] ∨
        (s.write bytes).1 = .waiting ∧ (s.write bytes).2.1 ≠ [] ∧
          limit = some (s.write bytes).2.2.written.length) := by
  unfold write
  cases limit with
  | none =>
    rw [show s.acceptance = .everything from h]
    exact ⟨List.prefix_append .., rfl, .inl ⟨rfl, rfl⟩⟩
  | some limit =>
    obtain ⟨count, haccept, hcount⟩ := h
    rw [haccept]
    by_cases hle : bytes.length ≤ count
    case pos =>
      simp only [if_pos hle]
      refine ⟨List.prefix_append .., ⟨_, rfl, ?_⟩, .inl ⟨trivial, trivial⟩⟩
      rw [List.length_append]
      omega
    case neg =>
      have hlength : (s.written ++ bytes.take count).length = limit := by
        rw [List.length_append, List.length_take]
        omega
      simp only [if_neg hle]
      refine ⟨List.prefix_append .., ⟨0, rfl, hlength⟩, .inr ⟨rfl, ?_, hlength ▸ rfl⟩⟩
      exact fun hnil => hle (List.drop_eq_nil_iff.1 hnil)

/-! ## What has arrived -/

theorem arrived_eq (s : Stream) : s.arrived = (Arrival.contents s.arrivals).length :=
  (Arrival.length_contents s.arrivals).symm

theorem arrived_arrive (s : Stream) (chunk : Bytes) :
    (s.arrive chunk).arrived = s.arrived + chunk.length := by
  rw [arrived_eq, arrived_eq, arrive, Arrival.contents_append, contents_pieces,
    List.length_append]

theorem arrived_le_of_suffix {s s' : Stream} (h : s'.arrivals <:+ s.arrivals) :
    s'.arrived ≤ s.arrived := by
  obtain ⟨read, hread⟩ := h
  rw [arrived_eq, arrived_eq, ← hread, Arrival.contents_append, List.length_append]
  omega

end Stream

namespace Link

variable {l l' l'' : Link} {limit : Option Nat}

/-- What no step of an exchange takes back: what was written stays written, and what was read is
not read again. -/
structure Advances (limit : Option Nat) (l l' : Link) : Prop where
  written : l.stream.written <+: l'.stream.written
  allows : l'.stream.Allows limit
  ended : l'.stream.ended = l.stream.ended
  arrivals : l'.stream.arrivals <:+ l.stream.arrivals

theorem Advances.refl (h : l.stream.Allows limit) : l.Advances limit l :=
  ⟨List.prefix_rfl, h, rfl, List.suffix_rfl⟩

theorem Advances.trans (h : l.Advances limit l') (h' : l'.Advances limit l'') :
    l.Advances limit l'' :=
  ⟨h.written.trans h'.written, h'.allows, h'.ended.trans h.ended,
    h'.arrivals.trans h.arrivals⟩

/-- What getting a frame out comes to where there is no other reason to stop than the limit. -/
inductive Pushes (limit : Option Nat) (l : Link) (frame : Bytes) : Writer.Sending × Link → Prop
  | full {l' : Link} (hadvances : l.Advances limit l') (hwrites : l.OnlyWrites l')
      (hout : l'.out = l.out ++ frame) (hqueue : l'.writer.queue ≠ [])
      (hfull : limit = some l'.stream.written.length) : Pushes limit l frame (.queued, l')
  | done {l' : Link} (hadvances : l.Advances limit l') (hwrites : l.OnlyWrites l')
      (hout : l'.out = l.out ++ frame) (hempty : l'.writer.queue = []) :
      Pushes limit l frame (.finished (.ok ()), l')

theorem pushes_flush (h : l.stream.Allows limit) :
    l.Pushes limit [] (sendingOf l.flush.1, l.flush.2) := by
  obtain ⟨hwritten, hallows, hresult⟩ := Stream.write_of_allows h l.writer.queue
  have hwrites := l.onlyWrites_flush
  have hadvances : l.Advances limit l.flush.2 :=
    ⟨hwritten, hallows, hwrites.ended, hwrites.arrivals ▸ List.suffix_rfl⟩
  have hout : l.flush.2.out = l.out ++ [] := l.out_flush.trans (List.append_nil _).symm
  obtain ⟨hdone, hempty⟩ | ⟨hwaiting, hqueue, hfull⟩ := hresult
  · rw [show l.flush.1 = .done (.ok ()) from hdone]
    exact .done hadvances hwrites hout hempty
  · rw [show l.flush.1 = .waiting from hwaiting]
    exact .full hadvances hwrites hout hqueue hfull

/-- A frame that is queued is written behind what was queued before. -/
theorem Pushes.of_enqueued {frame : Bytes} {sending : Writer.Sending}
    (h : (l.enqueued frame).Pushes limit [] (sending, l')) :
    l.Pushes limit frame (sending, l') := by
  have hwrites : l.OnlyWrites (l.enqueued frame) := ⟨rfl, rfl, rfl, id⟩
  have hadvances : (l.enqueued frame).Advances limit l' → l.Advances limit l' :=
    fun ⟨hwritten, hallows, hended, harrivals⟩ => ⟨hwritten, hallows, hended, harrivals⟩
  have hout : l'.out = (l.enqueued frame).out ++ [] → l'.out = l.out ++ frame := fun h => by
    rw [h, List.append_nil, out_enqueued]
  cases h with
  | full hadvances' hwrites' hout' hqueue hfull =>
    exact .full (hadvances hadvances') (hwrites.trans hwrites') (hout hout') hqueue hfull
  | done hadvances' hwrites' hout' hempty =>
    exact .done (hadvances hadvances') (hwrites.trans hwrites') (hout hout') hempty

theorem pushes_put (h : l.stream.Allows limit) (hempty : l.writer.queue = []) (payload : Bytes) :
    l.Pushes limit (frameOf payload) (l.put payload) := by
  cases hencode : encode payload with
  | error fault =>
    rw [put_of_error hencode, frameOf_of_error hencode]
    exact .done (.refl h) (.refl l) (List.append_nil _).symm hempty
  | ok frame =>
    have hput : l.put payload =
        (sendingOf (l.enqueued frame).flush.1, (l.enqueued frame).flush.2) := put_of_ok hencode
    have hallows : (l.enqueued frame).stream.Allows limit := h
    rw [hput, frameOf_of_ok hencode]
    exact (pushes_flush hallows).of_enqueued

/-- The bytes that are still to be queued. -/
def Stage.owedBytes (payload : Bytes) (stage : Stage) : Bytes :=
  (stage.owed (some payload)).elim [] frameOf

theorem pushes_sendOn (h : l.stream.Allows limit) {stage : Stage}
    (hempty : stage ≠ .flushing → l.writer.queue = []) (payload : Bytes) :
    l.Pushes limit (stage.owedBytes payload) (l.sendOn payload stage) := by
  cases stage with
  | flushing | receiving => exact pushes_flush h
  | offering =>
    have hqueue := hempty fun h => nomatch h
    have hsend : l.sendOn payload .offering = l.put payload := by
      rw [sendOn, send_eq, hqueue]
      rfl
    rw [hsend]
    exact pushes_put h hqueue payload

/-! ## Reading -/

end Link

/-- Reading on takes arrivals from the front, and all of them if it has to wait. -/
theorem Reader.readOn_arrivals (ended : Bool) (arrivals : List Arrival) (r : Reader) :
    (readOn ended r arrivals).2.2 <:+ arrivals ∧
      ((readOn ended r arrivals).1 = .waiting → (readOn ended r arrivals).2.2 = []) := by
  induction arrivals generalizing r with
  | nil =>
    unfold readOn
    repeat' split
    all_goals exact ⟨List.suffix_rfl, fun _ => rfl⟩
  | cons arrival arrivals ih =>
    cases arrival with
    | failure fault => exact ⟨List.suffix_cons .., fun h => by cases h⟩
    | bytes chunk =>
      rw [readOn]
      split
      · exact ⟨List.suffix_cons .., fun h => by cases h⟩
      · obtain ⟨hsuffix, hall⟩ := ih _
        exact ⟨hsuffix.trans (List.suffix_cons ..), hall⟩

theorem Reader.receive_arrivals (r : Reader) (s : Stream) :
    (r.receive s).2.2.arrivals <:+ s.arrivals ∧
      ((r.receive s).1 = .waiting → (r.receive s).2.2.arrivals = []) := by
  unfold receive
  split
  · exact ⟨List.suffix_rfl, nofun⟩
  · split
    · exact readOn_arrivals ..
    · split
      · exact ⟨List.suffix_rfl, nofun⟩
      · exact readOn_arrivals ..

namespace Link

/-- What a round comes to, with the bytes that were unread before it and the frame that was still
to be queued. -/
inductive Rounds (limit : Option Nat) (l : Link) (unread frame : Bytes) : Exchange × Link → Prop
  /-- There is no room for the own frame. -/
  | full {l' : Link} (hadvances : l.Advances limit l') (htidy : l'.Tidy unread)
      (hout : l'.out = l.out ++ frame) (hqueue : l'.writer.queue ≠ [])
      (hfull : limit = some l'.stream.written.length) :
      Rounds limit l unread frame (.waiting .flushing, l')
  /-- The other end's frame is not there yet. -/
  | awaits {l' : Link} (hadvances : l.Advances limit l') (htidy : l'.Tidy unread)
      (hout : l'.out = l.out ++ frame) (hempty : l'.writer.queue = [])
      (hcut : cutFrame unread = none) (harrivals : l'.stream.arrivals = []) :
      Rounds limit l unread frame (.waiting .receiving, l')
  | answered {payload rest : Bytes} {l' : Link} (hadvances : l.Advances limit l')
      (htidy : l'.Tidy rest) (hout : l'.out = l.out ++ frame) (hempty : l'.writer.queue = [])
      (hcut : cutFrame unread = some (.ok payload, rest)) :
      Rounds limit l unread frame (.finished (.ok (.frame payload)), l')

variable {l l' : Link} {limit : Option Nat} {unread : Bytes}

/-- What has arrived was not made into frames. -/
theorem Tidy.arrived_le (h : l.Tidy unread) : l.stream.arrived ≤ unread.length := by
  rw [Stream.arrived_eq, ← h.unread_eq, List.length_append]
  omega

theorem Tidy.of_onlyWrites (h : l.Tidy unread) (hwrites : l.OnlyWrites l') : l'.Tidy unread := by
  rw [Tidy, hwrites.reader, hwrites.arrivals]
  exact h

/-- Reading comes behind the own frame. -/
theorem rounds_exchangeReceive {frame : Bytes} (hadvances : l.Advances limit l')
    (hout : l'.out = l.out ++ frame) (hempty : l'.writer.queue = []) (htidy : l'.Tidy unread)
    (hopen : l'.stream.ended = false)
    (hplain : ∀ fault rest, cutFrame unread ≠ some (.error fault, rest)) :
    Rounds limit l unread frame l'.exchangeReceive := by
  have hreceive := reads_receive htidy
  have hreads := l'.onlyReads_receive
  obtain ⟨hsuffix, hall⟩ : l'.receive.2.stream.arrivals <:+ l'.stream.arrivals ∧
      (l'.receive.1 = .waiting → l'.receive.2.stream.arrivals = []) :=
    Reader.receive_arrivals l'.reader l'.stream
  unfold exchangeReceive
  rw [hopen] at hreceive
  generalize l'.receive = received at hreceive hreads hsuffix hall ⊢
  obtain ⟨attempt, l''⟩ := received
  have hadvances' : l.Advances limit l'' := by
    have hallows := hadvances.allows.of_eq hreads.acceptance hreads.written
    exact hadvances.trans ⟨hreads.written ▸ List.prefix_rfl, hallows, hreads.ended, hsuffix⟩
  have hout' : l''.out = l.out ++ frame := hreads.out.trans hout
  have hempty' : l''.writer.queue = [] := (congrArg Writer.queue hreads.writer).trans hempty
  cases hreceive with
  | frame hcut htidy' => exact .answered hadvances' htidy' hout' hempty' hcut
  | stop hcut hstop =>
    match hfound : cutFrame unread with
    | none => cases hstop hfound
    | some (.ok payload, rest) => exact absurd hfound (hcut payload rest)
    | some (.error fault, rest) => exact absurd hfound (hplain fault rest)
  | wait hcut _ htidy' => exact .awaits hadvances' htidy' hout' hempty' hcut (hall rfl)

/-- Reading without a frame has to wait. -/
theorem exchangeReceive_of_short (htidy : l.Tidy unread) (hcut : cutFrame unread = none)
    (hopen : l.stream.ended = false) : ∃ l', l.exchangeReceive = (.waiting .receiving, l') := by
  have hreads := reads_receive htidy
  unfold exchangeReceive
  rw [hopen] at hreads
  generalize l.receive = received at hreads ⊢
  obtain ⟨attempt, l'⟩ := received
  cases hreads with
  | frame hcut' => cases hcut.symm.trans hcut'
  | stop _ hstop => cases hstop hcut
  | wait => exact ⟨l', rfl⟩

/-- One round of an exchange, from where it stands. -/
theorem rounds_exchange {stage : Stage} (hallows : l.stream.Allows limit)
    (hempty : stage ≠ .flushing → l.writer.queue = []) (htidy : l.Tidy unread)
    (hopen : l.stream.ended = false)
    (hplain : ∀ fault rest, cutFrame unread ≠ some (.error fault, rest)) (payload : Bytes) :
    Rounds limit l unread (stage.owedBytes payload) (l.exchange payload stage) := by
  by_cases hstage : stage = .receiving
  case pos =>
    subst hstage
    exact rounds_exchangeReceive (.refl hallows) (List.append_nil _).symm
      (hempty fun h => nomatch h) htidy hopen hplain
  case neg =>
    have hpushes := pushes_sendOn hallows hempty payload
    rw [exchange_eq_sendOn hstage]
    generalize l.sendOn payload stage = result at hpushes ⊢
    cases hpushes with
    | full hadvances hwrites hout hqueue hfull =>
      exact .full hadvances (htidy.of_onlyWrites hwrites) hout hqueue hfull
    | done hadvances hwrites hout hempty' =>
      exact rounds_exchangeReceive hadvances hout hempty' (htidy.of_onlyWrites hwrites)
        (hwrites.ended.trans hopen) hplain

end Link

end Parley.Wire
