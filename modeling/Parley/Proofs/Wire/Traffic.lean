import Parley.Proofs.Wire.Writing

/-!
# The traffic of a link

Reads may fail, prefixes may announce nothing, and the stream may end inside a frame.
Whatever faults a link meets, the payloads that are taken from it are those in the bytes
that arrived, in their order, and none is taken twice. Writes may fail or stop in the
middle; what is handed to the writer are whole frames all the same.

- `payloads`: the payloads in a text of bytes, with the faults left out.
- `Passes`: some payloads stand between two places in a text of bytes.
- `Link.Holds`: the bytes that arrived at a link and were not made into frames yet.
- `Link.Takes`: a link at which payloads were taken, and nothing was written.
- `Link.Puts`: a link at which payloads were handed to the writer, and nothing was read.
- `Link.Trades`: what an exchange of frames takes and puts.
-/

namespace Parley.Wire

/-- The payloads in a text of bytes. -/
def payloads (bytes : Bytes) : List Bytes :=
  (frames bytes).filterMap Except.toOption

/-- What an event adds to the payloads. -/
theorem payloads_of_cut {bytes rest : Bytes} {event : FrameEvent}
    (h : cutFrame bytes = some (event, rest)) :
    payloads bytes = event.toOption.toList ++ payloads rest := by
  rw [payloads, frames_of_cut h]
  cases event <;> rfl

/-- The payloads of a text are those `taken`, and then those of the `rest`, whatever comes
behind both. -/
def Passes (bytes : Bytes) (taken : List Bytes) (rest : Bytes) : Prop :=
  ∀ more, payloads (bytes ++ more) = taken ++ payloads (rest ++ more)

namespace Passes

variable {bytes rest rest' : Bytes} {taken taken' : List Bytes}

theorem refl (bytes : Bytes) : Passes bytes [] bytes := fun _ => rfl

theorem trans (h : Passes bytes taken rest) (h' : Passes rest taken' rest') :
    Passes bytes (taken ++ taken') rest' := by
  intro more
  rw [h more, h' more, List.append_assoc]

/-- What is behind the bytes stays behind what is left of them. -/
theorem append (h : Passes bytes taken rest) (behind : Bytes) :
    Passes (bytes ++ behind) taken (rest ++ behind) := by
  intro more
  rw [List.append_assoc, List.append_assoc, h]

theorem of_cut {event : FrameEvent} (h : cutFrame bytes = some (event, rest)) :
    Passes bytes event.toOption.toList rest :=
  fun more => payloads_of_cut (cutFrame_append h more)

end Passes

/-! ## Decoders -/

namespace Decoder

/-- The payload that a decoder yields, if it is one. -/
def taken : Except FrameFault (Option Bytes) → List Bytes
  | .ok (some payload) => [payload]
  | _ => []

theorem taken_map_some (event : FrameEvent) : taken (event.map some) = event.toOption.toList := by
  cases event <;> rfl

/-- A decoder takes from the front of its content. -/
theorem passes_next {d : Decoder} (hd : d.Valid) :
    Passes d.content (taken d.next.1) d.next.2.content ∧ d.next.2.Valid := by
  cases hcut : cutFrame d.content with
  | some found =>
    obtain ⟨event, rest⟩ := found
    rw [next_of_cut hd hcut, taken_map_some]
    exact ⟨.of_cut hcut, valid_fresh rest⟩
  | none =>
    obtain ⟨d', hnext, hcontent, hvalid, -⟩ := next_of_short hd hcut
    rw [hnext]
    exact ⟨hcontent.symm ▸ .refl _, hvalid⟩

/-- The end of the stream takes nothing away. -/
theorem finish_eq (d : Decoder) :
    taken d.finish.1 = taken d.next.1 ∧ d.finish.2 = d.next.2 := by
  unfold finish
  rcases d.next with ⟨_ | _ | payload, d'⟩
  · exact ⟨rfl, rfl⟩
  · rcases d' with ⟨_ | length, _ | ⟨b, buffer⟩⟩ <;> exact ⟨rfl, rfl⟩
  · exact ⟨rfl, rfl⟩

theorem passes_finish {d : Decoder} (hd : d.Valid) :
    Passes d.content (taken d.finish.1) d.finish.2.content ∧ d.finish.2.Valid := by
  rw [d.finish_eq.1, d.finish_eq.2]
  exact passes_next hd

end Decoder

/-! ## Readers -/

theorem Stream.read_of_nil {s : Stream} (h : s.arrivals = []) :
    s.read = (if s.ended then .done (.ok []) else .waiting, s) := by
  unfold read
  rw [h]

theorem Stream.read_of_bytes {s : Stream} {chunk : Bytes} {arrivals : List Arrival}
    (h : s.arrivals = .bytes chunk :: arrivals) :
    s.read = (.done (.ok chunk), { s with arrivals }) := by
  unfold read
  rw [h]

theorem Stream.read_of_failure {s : Stream} {fault : IoFault} {arrivals : List Arrival}
    (h : s.arrivals = .failure fault :: arrivals) :
    s.read = (.done (.error fault), { s with arrivals }) := by
  unfold read
  rw [h]

/-- The payload that is received, if it is one. -/
def Reception.taken : Reception → List Bytes
  | .frame payload => [payload]
  | _ => []

/-- The payload that an attempt takes, if it takes one. -/
def Attempt.taken : Attempt Reception → List Bytes
  | .done reception => reception.taken
  | .waiting => []

theorem Reception.taken_of_payload {reception : Reception} (h : reception.payload ≠ []) :
    reception.taken = [reception.payload] := by
  cases reception with
  | frame payload => rfl
  | broken | nothing => exact absurd rfl h

namespace Reader

/-- A reader with the bytes that arrived and were not made into frames, whatever faults it
has met: first those in the decoder, then those in front, then those in the stream. -/
structure Holds (r : Reader) (arrivals : List Arrival) (unread : Bytes) : Prop where
  valid : r.decoder.Valid
  unread_eq : r.decoder.content ++ r.front ++ Arrival.contents arrivals = unread

/-- The payloads that were taken from the bytes that a reader held, and the reader then. -/
structure Yields (unread : Bytes) (taken : List Bytes) (r : Reader) (arrivals : List Arrival) :
    Prop where
  exists_rest : ∃ rest, r.Holds arrivals rest ∧ Passes unread taken rest

variable {r : Reader} {arrivals : List Arrival} {unread : Bytes}

theorem Holds.yields (h : r.Holds arrivals unread) : Yields unread [] r arrivals :=
  ⟨unread, h, .refl unread⟩

/-- A decoder that was asked is the only part of a reader that changes. -/
theorem Holds.yields_of_passes {decoder : Decoder} {taken : List Bytes}
    (h : r.Holds arrivals unread)
    (hpasses : Passes r.decoder.content taken decoder.content ∧ decoder.Valid)
    {r' : Reader} (hdecoder : r'.decoder = decoder) (hfront : r'.front = r.front) :
    Yields unread taken r' arrivals := by
  subst hdecoder
  have hbehind := hpasses.1.append (r.front ++ Arrival.contents arrivals)
  rw [← List.append_assoc, h.unread_eq, ← List.append_assoc, ← hfront] at hbehind
  exact ⟨_, ⟨hpasses.2, rfl⟩, hbehind⟩

/-- What a reader yields without reading is the front of what its decoder holds. -/
theorem Holds.yields_settle (h : r.Holds arrivals unread) :
    Yields unread ((r.settle.1.map Reception.taken).getD []) r.settle.2 arrivals ∧
      r.settle.2.front = r.front := by
  unfold settle
  split
  · exact ⟨⟨unread, ⟨h.valid, h.unread_eq⟩, .refl unread⟩, rfl⟩
  · split
    case isFalse => exact ⟨h.yields, rfl⟩
    case isTrue =>
      have hpasses : ∀ result : Except FrameFault (Option Bytes) × Decoder,
          result = (if r.ended then r.decoder.finish else r.decoder.next) →
            Passes r.decoder.content (Decoder.taken result.1) result.2.content ∧
              result.2.Valid := by
        rintro result rfl
        split
        · exact Decoder.passes_finish h.valid
        · exact Decoder.passes_next h.valid
      have hresult := hpasses _ rfl
      generalize (if r.ended then r.decoder.finish else r.decoder.next) = result at hresult ⊢
      rcases result with ⟨_ | _ | payload, decoder⟩
      · exact ⟨h.yields_of_passes hresult rfl rfl, rfl⟩
      · refine ⟨?_, rfl⟩
        cases r.ended <;> exact h.yields_of_passes hresult rfl rfl
      · exact ⟨h.yields_of_passes hresult rfl rfl, rfl⟩

/-- Bytes that are read go behind those in the decoder. -/
theorem Holds.feed {chunk : Bytes} (h : r.Holds (.bytes chunk :: arrivals) unread)
    (hfront : r.front = []) : (r.feed chunk).Holds arrivals unread where
  valid := h.valid.feed chunk
  unread_eq := by
    have heq := h.unread_eq
    rw [hfront, List.append_nil, Arrival.contents_cons, ← List.append_assoc] at heq
    show (r.decoder.feed chunk).content ++ r.front ++ Arrival.contents arrivals = unread
    rw [Decoder.content_feed, hfront, List.append_nil]
    exact heq

/-- The bytes in front go behind those in the decoder. -/
theorem Holds.feedFront (h : r.Holds arrivals unread) :
    ({ r with front := [] }.feed r.front).Holds arrivals unread where
  valid := h.valid.feed r.front
  unread_eq := by
    show (r.decoder.feed r.front).content ++ [] ++ Arrival.contents arrivals = unread
    rw [Decoder.content_feed, List.append_nil]
    exact h.unread_eq

/-- Reading on takes the first payload there is, unless a fault comes before it. -/
theorem Holds.yields_readOn (ended : Bool) (arrivals : List Arrival) {r : Reader} {unread : Bytes}
    (h : r.Holds arrivals unread) (hfront : r.front = []) :
    Yields unread (readOn ended r arrivals).1.taken (readOn ended r arrivals).2.1
      (readOn ended r arrivals).2.2 := by
  -- In every round the bytes of one arrival go to the decoder, which may have nothing to say.
  induction arrivals generalizing r unread with
  | nil =>
    rw [readOn]
    split
    · split
      · exact h.yields
      · have hended : ({ r with ended := true, readable := true } : Reader).Holds [] unread :=
          ⟨h.valid, h.unread_eq⟩
        obtain ⟨hyields, -⟩ := hended.yields_settle
        generalize ({ r with ended := true, readable := true } : Reader).settle = settled
          at hyields ⊢
        obtain ⟨_ | reception, r'⟩ := settled <;> exact hyields
    · exact h.yields
  | cons arrival arrivals ih =>
    cases arrival with
    | failure fault => exact ⟨unread, ⟨h.valid, h.unread_eq⟩, .refl unread⟩
    | bytes chunk =>
      obtain ⟨hyields, hfront'⟩ := (h.feed hfront).yields_settle
      rw [readOn]
      generalize (r.feed chunk).settle = settled at hyields hfront' ⊢
      obtain ⟨_ | reception, r'⟩ := settled
      · obtain ⟨rest, hholds, hpasses⟩ := hyields
        obtain ⟨rest', hholds', hpasses'⟩ := ih hholds (hfront'.trans hfront)
        exact ⟨rest', hholds', hpasses.trans hpasses'⟩
      · exact hyields

theorem Yields.trans {rest : Bytes} {taken : List Bytes} (hpasses : Passes unread [] rest)
    (h : Yields rest taken r arrivals) : Yields unread taken r arrivals := by
  obtain ⟨rest', hholds, hpasses'⟩ := h
  exact ⟨rest', hholds, hpasses.trans hpasses'⟩

/-- A reception takes the payload that it yields from the front of all that arrived. -/
theorem Holds.yields_receive {s : Stream} (h : r.Holds s.arrivals unread) :
    Yields unread (r.receive s).1.taken (r.receive s).2.1 (r.receive s).2.2.arrivals := by
  obtain ⟨hyields, -⟩ := h.yields_settle
  unfold receive
  generalize r.settle = settled at hyields ⊢
  obtain ⟨_ | reception, r'⟩ := settled
  case some => exact hyields
  case none =>
    obtain ⟨rest, hholds, hpasses⟩ := hyields
    dsimp only
    split
    case isTrue hfront =>
      rw [receiveFrom_eq]
      exact (hholds.yields_readOn s.ended s.arrivals (List.isEmpty_iff.1 hfront)).trans hpasses
    case isFalse =>
      obtain ⟨hyields', hfront⟩ := hholds.feedFront.yields_settle
      generalize ({ r' with front := [] }.feed r'.front).settle = settled at hyields' hfront ⊢
      obtain ⟨_ | reception, r''⟩ := settled
      · obtain ⟨rest', hholds', hpasses'⟩ := hyields'
        dsimp only
        rw [receiveFrom_eq]
        exact (hholds'.yields_readOn s.ended s.arrivals hfront).trans (hpasses.trans hpasses')
      · exact hyields'.trans hpasses

/-- Looking for data takes nothing. -/
theorem Holds.holds_awaitData {s : Stream} (h : r.Holds s.arrivals unread) :
    (r.awaitData s).2.1.Holds (r.awaitData s).2.2.arrivals unread := by
  unfold awaitData
  split
  case isTrue => exact h
  case isFalse hempty =>
    have hfront : r.front = [] := by
      cases hf : r.front with
      | nil => rfl
      | cons b bytes => exact absurd (by simp [hf]) hempty
    have heq := h.unread_eq
    rw [hfront, List.append_nil] at heq
    cases harrivals : s.arrivals with
    | nil =>
      rw [Stream.read_of_nil harrivals]
      cases s.ended with
      | false => exact h
      | true =>
        refine ⟨h.valid, ?_⟩
        show r.decoder.content ++ [] ++ Arrival.contents s.arrivals = unread
        rw [List.append_nil]
        exact heq
    | cons arrival arrivals =>
      rw [harrivals] at h heq
      cases arrival with
      | failure fault =>
        rw [Stream.read_of_failure harrivals]
        exact ⟨h.valid, h.unread_eq⟩
      | bytes chunk =>
        rw [Stream.read_of_bytes harrivals]
        refine ⟨h.valid, ?_⟩
        rw [Arrival.contents_cons, ← List.append_assoc] at heq
        exact heq

end Reader

/-! ## Links -/

namespace Link

/-- The bytes that arrived at a link and were not made into frames. -/
def Holds (l : Link) (unread : Bytes) : Prop :=
  l.reader.Holds l.stream.arrivals unread

/-- A link at which these payloads were taken, and nothing but reading was done. -/
structure Takes (l : Link) (taken : List Bytes) (l' : Link) : Prop where
  reads : l.OnlyReads l'
  passes : ∀ unread, l.Holds unread → ∃ rest, l'.Holds rest ∧ Passes unread taken rest

variable {l l' l'' : Link} {unread : Bytes}

theorem Takes.refl (l : Link) : l.Takes [] l :=
  ⟨.refl l, fun unread h => ⟨unread, h, .refl unread⟩⟩

theorem Takes.trans {taken taken' : List Bytes} (h : l.Takes taken l') (h' : l'.Takes taken' l'') :
    l.Takes (taken ++ taken') l'' := by
  refine ⟨h.reads.trans h'.reads, fun unread hholds => ?_⟩
  obtain ⟨rest, hrest, hpasses⟩ := h.passes unread hholds
  obtain ⟨rest', hrest', hpasses'⟩ := h'.passes rest hrest
  exact ⟨rest', hrest', hpasses.trans hpasses'⟩

theorem takes_receive (l : Link) : l.Takes l.receive.1.taken l.receive.2 :=
  ⟨l.onlyReads_receive, fun _ h => (Reader.Holds.yields_receive h).exists_rest⟩

theorem takes_awaitData (l : Link) : l.Takes [] l.awaitData.2 :=
  ⟨l.onlyReads_awaitData, fun unread h => ⟨unread, Reader.Holds.holds_awaitData h, .refl unread⟩⟩

theorem holds_ofStream_idle : (ofStream .idle).Holds [] :=
  ⟨Decoder.valid_fresh [], rfl⟩

theorem Holds.of_onlyWrites (h : l.Holds unread) (hwrites : l.OnlyWrites l') : l'.Holds unread := by
  rw [Holds, hwrites.reader, hwrites.arrivals]
  exact h

end Link

/-- The bytes that arrive when the far end does something. -/
def Stream.FarEvent.chunk : Stream.FarEvent → Bytes
  | .arrive chunk => chunk
  | _ => []

/-- What arrives goes behind all that arrived before. -/
theorem Link.Holds.happen {l : Link} {unread : Bytes} (h : l.Holds unread)
    (event : Stream.FarEvent) : (l.happen event).Holds (unread ++ event.chunk) := by
  refine ⟨h.valid, ?_⟩
  show l.reader.decoder.content ++ l.reader.front ++
    Arrival.contents (l.stream.happen event).arrivals = unread ++ event.chunk
  have hcontents : Arrival.contents (l.stream.happen event).arrivals =
      Arrival.contents l.stream.arrivals ++ event.chunk := by
    cases event with
    | arrive chunk =>
      exact (Arrival.contents_append ..).trans (congrArg _ (Stream.contents_pieces chunk))
    | fail fault => exact Arrival.contents_append ..
    | finish | accept => exact (List.append_nil _).symm
  rw [hcontents, ← List.append_assoc, h.unread_eq]

/-! ## Frames that are handed over -/

theorem copies_eq_flatMap (count : Nat) (payload : Bytes) :
    copies count payload = (List.replicate count payload).flatMap frameOf :=
  List.flatMap_replicate.symm

namespace Link

/-- A link at which these payloads were handed to the writer, and nothing was read. -/
structure Puts (l : Link) (sent : List Bytes) (l' : Link) : Prop where
  writes : l.OnlyWrites l'
  out : l'.out = l.out ++ sent.flatMap frameOf

section Puts

variable {l l' l'' : Link} {payload : Bytes}

theorem Puts.refl (l : Link) : l.Puts [] l :=
  ⟨.refl l, (List.append_nil _).symm⟩

theorem Puts.trans {sent sent' : List Bytes} (h : l.Puts sent l') (h' : l'.Puts sent' l'') :
    l.Puts (sent ++ sent') l'' := by
  refine ⟨h.writes.trans h'.writes, ?_⟩
  rw [h'.out, h.out, List.flatMap_append, List.append_assoc]

theorem puts_of_copies {count : Nat} (hwrites : l.OnlyWrites l')
    (hout : l'.out = l.out ++ copies count payload) :
    l.Puts (List.replicate count payload) l' :=
  ⟨hwrites, by rw [hout, copies_eq_flatMap]⟩

theorem puts_flush (l : Link) : l.Puts [] l.flush.2 :=
  ⟨l.onlyWrites_flush, l.out_flush.trans (List.append_nil _).symm⟩

theorem puts_shutdown (l : Link) : l.Puts [] l.shutdown.2 := by
  refine ⟨?_, l.out_shutdown.trans (List.append_nil _).symm⟩
  have hwrites := l.onlyWrites_flush
  unfold flush at hwrites
  unfold shutdown Writer.shutdown
  generalize l.writer.flush l.stream = flushed at hwrites ⊢
  obtain ⟨_ | _ | _, writer, stream⟩ := flushed
  · exact hwrites
  · exact hwrites
  · exact ⟨hwrites.reader, hwrites.arrivals, hwrites.ended, hwrites.acceptance⟩

/-- A frame is handed over whole, or not at all. -/
theorem exists_puts_send (payload : Bytes) (l : Link) :
    ∃ count, l.Puts (List.replicate count payload) (l.send payload).2 := by
  have hwrites := l.onlyWrites_send payload
  have hsends := l.sends_send payload
  generalize l.send payload = result at hwrites hsends ⊢
  cases hsends with
  | held _ hout | refused _ hout =>
    exact ⟨0, hwrites, hout.trans (List.append_nil _).symm⟩
  | queued _ hout | failed _ hout | finished hout _ =>
    rw [← copies_one] at hout
    exact ⟨1, puts_of_copies hwrites hout⟩

end Puts

/-- What an exchange of frames takes and puts. -/
inductive Trades (l : Link) (payload : Bytes) : Exchange × Link → Prop
  /-- It has to wait or has failed. -/
  | stopped {exchange : Exchange} {count : Nat} {l' l'' : Link}
      (hputs : l.Puts (List.replicate count payload) l') (htakes : l'.Takes [] l'')
      (hstopped : ∀ reception, exchange ≠ .finished (.ok reception)) :
      Trades l payload (exchange, l'')
  | answered {reception : Reception} {count : Nat} {l' l'' : Link}
      (hputs : l.Puts (List.replicate count payload) l') (htakes : l'.Takes reception.taken l'') :
      Trades l payload (.finished (.ok reception), l'')

theorem trades_exchangeReceive {l l' : Link} {payload : Bytes} {count : Nat}
    (hputs : l.Puts (List.replicate count payload) l') :
    l.Trades payload l'.exchangeReceive := by
  have htakes := l'.takes_receive
  unfold exchangeReceive
  generalize l'.receive = received at htakes ⊢
  obtain ⟨_ | reception, l''⟩ := received
  · exact .stopped hputs htakes fun _ h => nomatch h
  · exact .answered hputs htakes

theorem trades_exchange (payload : Bytes) (stage : Stage) (l : Link) :
    l.Trades payload (l.exchange payload stage) := by
  have hexchanges := l.exchanges_exchange payload stage
  generalize l.exchange payload stage = result at hexchanges ⊢
  cases hexchanges with
  | waiting hwrites hout =>
    exact .stopped (puts_of_copies hwrites hout) (.refl _) fun _ h => nomatch h
  | failed hwrites hout =>
    exact .stopped (puts_of_copies hwrites hout) (.refl _) fun _ h => nomatch h
  | answered hwrites hout => exact trades_exchangeReceive (puts_of_copies hwrites hout)

end Link

end Parley.Wire
