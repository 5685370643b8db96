import Parley.Proofs.Wire.Frames
import Parley.Wire.Link

/-!
# Reading from a link

The bytes that arrive at a link wait in three places: in the stream, in front of the
reader and in its decoder. Only their concatenation matters: a reception takes the
frame at its front, from wherever its bytes are.

- `Reader.Tidy`: a reader that has met no fault, with all the bytes that were not made
  into frames yet.
- `Reader.Reads`: what a reception makes of those bytes.
- `Link.OnlyReads`: what reading leaves alone.
- `Link.reads_receive`, `Link.probes_awaitData`: receptions and probes of a link.
-/

namespace Parley.Wire

/-! ## Arrivals -/

namespace Arrival

def content : Arrival → Bytes
  | .bytes chunk => chunk
  | .failure _ => []

/-- The bytes of arrivals, in order. -/
def contents (arrivals : List Arrival) : Bytes :=
  arrivals.flatMap content

/-- Whether a read finds bytes here. -/
def IsPlain : Arrival → Prop
  | .bytes chunk => chunk ≠ []
  | .failure _ => False

@[simp] theorem contents_nil : contents [] = [] := rfl

@[simp] theorem contents_cons (arrival : Arrival) (arrivals : List Arrival) :
    contents (arrival :: arrivals) = arrival.content ++ contents arrivals :=
  List.flatMap_cons

theorem contents_append (arrivals more : List Arrival) :
    contents (arrivals ++ more) = contents arrivals ++ contents more :=
  List.flatMap_append

theorem length_contents (arrivals : List Arrival) :
    (contents arrivals).length =
      arrivals.foldr (fun arrival count => arrival.size + count) 0 := by
  induction arrivals with
  | nil => rfl
  | cons arrival arrivals ih =>
    rw [contents_cons, List.length_append, ih, List.foldr_cons]
    cases arrival <;> rfl

end Arrival

namespace Stream

/-- Cutting a chunk into pieces loses nothing, and no piece is empty. -/
theorem piecesWithin_spec (room : Nat) (chunk : Bytes) :
    Arrival.contents ((piecesWithin room chunk).map .bytes) = chunk ∧
      ∀ a ∈ (piecesWithin room chunk).map Arrival.bytes, a.IsPlain := by
  induction room generalizing chunk with
  | zero =>
    cases chunk with
    | nil => exact ⟨rfl, fun a ha => nomatch ha⟩
    | cons b bytes =>
      refine ⟨by simp [piecesWithin, Arrival.content], fun a ha => ?_⟩
      obtain rfl : a = .bytes (b :: bytes) := by simpa [piecesWithin] using ha
      exact List.cons_ne_nil b bytes
  | succ room ih =>
    cases chunk with
    | nil => exact ⟨rfl, fun a ha => nomatch ha⟩
    | cons b bytes =>
      obtain ⟨hcontents, hplain⟩ := ih ((b :: bytes).drop readLimit)
      refine ⟨?_, fun a ha => ?_⟩
      · rw [piecesWithin, List.map_cons, Arrival.contents_cons, hcontents]
        · exact List.take_append_drop readLimit (b :: bytes)
        · exact fun h => nomatch h
      · rw [piecesWithin, List.map_cons, List.mem_cons] at ha
        · rcases ha with rfl | ha
          · exact List.cons_ne_nil b _
          · exact hplain a ha
        · exact fun h => nomatch h

theorem contents_pieces (chunk : Bytes) :
    Arrival.contents ((pieces chunk).map .bytes) = chunk :=
  (piecesWithin_spec chunk.length chunk).1

theorem isPlain_of_mem_pieces {chunk : Bytes} {a : Arrival}
    (h : a ∈ (pieces chunk).map Arrival.bytes) : a.IsPlain :=
  (piecesWithin_spec chunk.length chunk).2 a h

end Stream

/-! ## Readers -/

namespace Decoder

theorem length_content_le (d : Decoder) : d.content.length ≤ d.buffer.length + prefixLength := by
  rcases d with ⟨_ | length, buffer⟩
  · exact Nat.le_add_right _ _
  · rw [content_due, List.length_append, Nat.add_comm]
    exact Nat.le_refl _

/-- Without a byte behind a prefix there is no frame. -/
theorem cutFrame_content_of_buffer {d : Decoder} (hd : d.Valid) (h : d.buffer = []) :
    cutFrame d.content = none := by
  rcases d with ⟨_ | length, buffer⟩
  · obtain rfl : buffer = [] := h
    rfl
  · obtain rfl : buffer = [] := h
    obtain ⟨hpos, hlt⟩ := hd length rfl
    rw [content_due, cutFrame_due hpos hlt]
    exact if_pos hpos

theorem finish_payload_of_short {d d' : Decoder} (hd : d.Valid) (h : cutFrame d.content = none)
    (payload : Bytes) : d.finish ≠ (.ok (some payload), d') := by
  intro hfinish
  have hend := finish_of_short hd h
  rw [hfinish] at hend
  have hcontra := (ending_eq_ok_iff.1 hend.symm).2
  cases hcontra

end Decoder

namespace Reader

/-- A reader that has met neither a fault nor the end of the stream, with the bytes
that arrived and were not made into frames: first those in the decoder, then those in
front, then those in the stream. -/
structure Tidy (r : Reader) (arrivals : List Arrival) (unread : Bytes) : Prop where
  valid : r.decoder.Valid
  notFailed : r.failed = false
  notEnded : r.ended = false
  /-- A decoder that need not be asked holds no frame. -/
  settled : r.readable = false → cutFrame r.decoder.content = none
  plain : ∀ a ∈ arrivals, a.IsPlain
  unread_eq : r.decoder.content ++ r.front ++ Arrival.contents arrivals = unread

/-- What a reception makes of the bytes that arrived. `ended` is whether the stream
ends behind them. -/
inductive Reads (unread : Bytes) (ended : Bool) :
    Attempt Reception × Reader × List Arrival → Prop
  /-- It takes the frame in front. -/
  | frame {payload rest : Bytes} {r : Reader} {arrivals : List Arrival}
      (hcut : cutFrame unread = some (.ok payload, rest)) (htidy : r.Tidy arrivals rest) :
      Reads unread ended (.done (.frame payload), r, arrivals)
  /-- There is no frame, and there will be none. -/
  | stop {reception : Reception} {r : Reader} {arrivals : List Arrival}
      (hcut : ∀ payload rest, cutFrame unread ≠ some (.ok payload, rest))
      (hended : cutFrame unread = none → ended = true) (hpayload : reception.payload = []) :
      Reads unread ended (.done reception, r, arrivals)
  /-- There is no frame yet. -/
  | wait {r : Reader} {arrivals : List Arrival} (hcut : cutFrame unread = none)
      (hended : ended = false) (htidy : r.Tidy arrivals unread) :
      Reads unread ended (.waiting, r, arrivals)

section Settling

variable {r r' : Reader} {arrivals : List Arrival} {unread : Bytes}

theorem tidy_fresh : fresh.Tidy [] [] where
  valid := Decoder.valid_fresh []
  notFailed := rfl
  notEnded := rfl
  settled _ := rfl
  plain := List.forall_mem_nil _
  unread_eq := rfl

/-- Bytes that are read go behind those in the decoder. -/
theorem Tidy.feed {chunk : Bytes} (h : r.Tidy (.bytes chunk :: arrivals) unread)
    (hfront : r.front = []) : (r.feed chunk).Tidy arrivals unread where
  valid := h.valid.feed chunk
  notFailed := h.notFailed
  notEnded := rfl
  settled hreadable := nomatch hreadable
  plain a ha := h.plain a (List.mem_cons_of_mem _ ha)
  unread_eq := by
    have heq := h.unread_eq
    rw [hfront, List.append_nil, Arrival.contents_cons, ← List.append_assoc] at heq
    show (r.decoder.feed chunk).content ++ r.front ++ Arrival.contents arrivals = unread
    rw [Decoder.content_feed, hfront, List.append_nil]
    exact heq

/-- The bytes in front go behind those in the decoder. -/
theorem Tidy.feedFront (h : r.Tidy arrivals unread) :
    ({ r with front := [] }.feed r.front).Tidy arrivals unread where
  valid := h.valid.feed r.front
  notFailed := h.notFailed
  notEnded := rfl
  settled hreadable := nomatch hreadable
  plain := h.plain
  unread_eq := by
    show (r.decoder.feed r.front).content ++ [] ++ Arrival.contents arrivals = unread
    rw [Decoder.content_feed, List.append_nil]
    exact h.unread_eq

/-- What stands at the front of the decoder stands at the front of all. -/
theorem Tidy.cutFrame_unread (h : r.Tidy arrivals unread) {event : FrameEvent} {rest : Bytes}
    (hcut : cutFrame r.decoder.content = some (event, rest)) :
    cutFrame unread = some (event, rest ++ r.front ++ Arrival.contents arrivals) := by
  have hall := cutFrame_append hcut (r.front ++ Arrival.contents arrivals)
  rwa [← List.append_assoc, h.unread_eq, ← List.append_assoc] at hall

theorem Tidy.settle_of_readable (h : r.Tidy arrivals unread) (hreadable : r.readable = true) :
    r.settle =
      match r.decoder.next with
      | (.error fault, decoder) => (some (.broken fault), { r with decoder, failed := true })
      | (.ok (some payload), decoder) => (some (.frame payload), { r with decoder })
      | (.ok none, decoder) => (none, { r with decoder, readable := false }) := by
  obtain ⟨front, decoder, ended, readable, failed⟩ := r
  obtain rfl : failed = false := h.notFailed
  obtain rfl : ended = false := h.notEnded
  obtain rfl : readable = true := hreadable
  rcases hnext : decoder.next with ⟨_ | _ | payload, decoder'⟩ <;> simp [settle, hnext]

/-- What a tidy reader says without reading from the stream is what its decoder holds. -/
theorem Tidy.reads_settle (h : r.Tidy arrivals unread) (ended : Bool) :
    (∃ reception r', r.settle = (some reception, r') ∧
        Reads unread ended (.done reception, r', arrivals)) ∨
      ∃ r', r.settle = (none, r') ∧ r'.Tidy arrivals unread ∧ r'.front = r.front ∧
        cutFrame r'.decoder.content = none := by
  cases hreadable : r.readable with
  | false =>
    have hsettle : r.settle = (none, r) := by
      unfold settle
      rw [h.notFailed, hreadable]
      simp only [Bool.false_eq_true, if_false]
    exact .inr ⟨r, hsettle, h, rfl, h.settled hreadable⟩
  | true =>
    rw [h.settle_of_readable hreadable]
    cases hcut : cutFrame r.decoder.content with
    | none =>
      -- Without a frame the decoder may have taken a prefix, which stays part of its content.
      obtain ⟨d', hnext, hcontent, hvalid, -⟩ := Decoder.next_of_short h.valid hcut
      rw [hnext]
      have hcut' : cutFrame d'.content = none := by rwa [hcontent]
      refine .inr ⟨_, rfl, ?_, rfl, hcut'⟩
      exact
        { valid := hvalid
          notFailed := h.notFailed
          notEnded := h.notEnded
          settled := fun _ => hcut'
          plain := h.plain
          unread_eq := by
            show d'.content ++ r.front ++ Arrival.contents arrivals = unread
            rw [hcontent, h.unread_eq] }
    | some found =>
      obtain ⟨event, rest⟩ := found
      have hall := h.cutFrame_unread hcut
      rw [Decoder.next_of_cut h.valid hcut]
      cases event with
      | ok payload =>
        refine .inl ⟨_, _, rfl, .frame hall ?_⟩
        exact
          { valid := Decoder.valid_fresh rest
            notFailed := h.notFailed
            notEnded := h.notEnded
            settled := fun hfalse => nomatch hfalse.symm.trans hreadable
            plain := h.plain
            unread_eq := rfl }
      | error fault =>
        refine .inl ⟨_, _, rfl, .stop (fun payload rest' hok => ?_) (fun hnone => ?_) rfl⟩
        · cases hall.symm.trans hok
        · cases hall.symm.trans hnone

end Settling

/-- At the end of the stream there is either a fault or nothing. -/
theorem Tidy.reads_end {r : Reader} {unread : Bytes} (h : r.Tidy [] unread)
    (hfront : r.front = []) (hcut : cutFrame r.decoder.content = none) :
    ∃ reception r', ({ r with ended := true, readable := true } : Reader).settle =
        (some reception, r') ∧ Reads unread true (.done reception, r', []) := by
  have hunread : unread = r.decoder.content := by
    rw [← h.unread_eq, hfront, Arrival.contents_nil, List.append_nil, List.append_nil]
  have hstop : ∀ payload rest, cutFrame unread ≠ some (.ok payload, rest) := by
    intro payload rest hsome
    rw [hunread, hcut] at hsome
    cases hsome
  unfold settle
  simp only [h.notFailed, Bool.false_eq_true, if_false, if_true]
  match hfinish : r.decoder.finish with
  | (.error fault, decoder) => exact ⟨_, _, rfl, .stop hstop (fun _ => rfl) rfl⟩
  | (.ok none, decoder) => exact ⟨_, _, rfl, .stop hstop (fun _ => rfl) rfl⟩
  | (.ok (some payload), decoder) =>
    exact absurd hfinish (Decoder.finish_payload_of_short h.valid hcut payload)

/-- A reader reads on until there is a frame in its decoder. -/
theorem Tidy.reads_readOn (ended : Bool) (arrivals : List Arrival) {r : Reader}
    {unread : Bytes} (h : r.Tidy arrivals unread) (hfront : r.front = [])
    (hcut : cutFrame r.decoder.content = none) : Reads unread ended (readOn ended r arrivals) := by
  -- In every round the decoder holds no frame, and nothing stands in front of the stream.
  induction arrivals generalizing r with
  | nil =>
    have hunread : unread = r.decoder.content := by
      rw [← h.unread_eq, hfront, Arrival.contents_nil, List.append_nil, List.append_nil]
    cases ended with
    | false => exact .wait (hunread ▸ hcut) rfl h
    | true =>
      obtain ⟨reception, r', hsettle, hreads⟩ := h.reads_end hfront hcut
      rw [readOn, if_pos rfl, h.notEnded, hsettle]
      exact hreads
  | cons arrival arrivals ih =>
    cases arrival with
    | failure fault => exact (h.plain _ (List.mem_cons_self ..)).elim
    | bytes chunk =>
      have hfed := h.feed hfront
      rw [readOn]
      obtain ⟨reception, r', hsettle, hreads⟩ | ⟨r', hsettle, htidy, hfront', hcut'⟩ :=
        hfed.reads_settle ended
      · rw [hsettle]
        exact hreads
      · rw [hsettle]
        exact ih htidy (hfront'.trans hfront) hcut'

theorem receiveFrom_eq (r : Reader) (s : Stream) :
    r.receiveFrom s =
      ((readOn s.ended r s.arrivals).1, (readOn s.ended r s.arrivals).2.1,
        { s with arrivals := (readOn s.ended r s.arrivals).2.2 }) :=
  rfl

/-- A reception takes the frame at the front of all that arrived. -/
theorem Tidy.reads_receive {r : Reader} {s : Stream} {unread : Bytes}
    (h : r.Tidy s.arrivals unread) :
    Reads unread s.ended
      ((r.receive s).1, (r.receive s).2.1, (r.receive s).2.2.arrivals) := by
  unfold receive
  obtain ⟨reception, r', hsettle, hreads⟩ | ⟨r', hsettle, htidy, -, hcut⟩ :=
    h.reads_settle s.ended
  · rw [hsettle]
    exact hreads
  · rw [hsettle]
    cases hfront : r'.front with
    | nil =>
      simp only [hfront, List.isEmpty_nil, if_true, receiveFrom_eq]
      exact htidy.reads_readOn s.ended s.arrivals hfront hcut
    | cons b bytes =>
      have hfed := htidy.feedFront
      rw [hfront] at hfed
      simp only [hfront, List.isEmpty_cons, Bool.false_eq_true, if_false]
      obtain ⟨reception, r'', hsettle', hreads⟩ | ⟨r'', hsettle', htidy', hfront', hcut'⟩ :=
        hfed.reads_settle s.ended
      · rw [hsettle']
        exact hreads
      · rw [hsettle']
        simp only [receiveFrom_eq]
        exact htidy'.reads_readOn s.ended s.arrivals hfront' hcut'

/-- What looking for data comes to: it finds some, or nothing will come, or nothing has
come yet. -/
inductive Probes (unread : Bytes) (ended : Bool) :
    Attempt (IoResult Bool) × Reader × List Arrival → Prop
  | data {r : Reader} {arrivals : List Arrival} (htidy : r.Tidy arrivals unread) :
      Probes unread ended (.done (.ok true), r, arrivals)
  | stop {r : Reader} {arrivals : List Arrival} (hcut : cutFrame unread = none)
      (hended : ended = true) : Probes unread ended (.done (.ok false), r, arrivals)
  | wait {r : Reader} {arrivals : List Arrival} (hcut : cutFrame unread = none)
      (hended : ended = false) (htidy : r.Tidy arrivals unread) :
      Probes unread ended (.waiting, r, arrivals)

/-- Looking for data takes nothing. -/
theorem Tidy.probes_awaitData {r : Reader} {s : Stream} {unread : Bytes}
    (h : r.Tidy s.arrivals unread) :
    Probes unread s.ended
      ((r.awaitData s).1, (r.awaitData s).2.1, (r.awaitData s).2.2.arrivals) := by
  unfold awaitData
  split
  case isTrue => exact .data h
  case isFalse hempty =>
    -- At most a prefix is left in the reader, so that only the stream can tell.
    have hbuffer : r.decoder.buffer = [] := by
      cases hb : r.decoder.buffer with
      | nil => rfl
      | cons b bytes => exact absurd (by simp [hb]) hempty
    have hfront : r.front = [] := by
      cases hf : r.front with
      | nil => rfl
      | cons b bytes => exact absurd (by simp [hf]) hempty
    have heq := h.unread_eq
    rw [hfront, List.append_nil] at heq
    unfold Stream.read
    cases harrivals : s.arrivals with
    | nil =>
      rw [harrivals, Arrival.contents_nil, List.append_nil] at heq
      have hcut : cutFrame unread = none :=
        heq ▸ Decoder.cutFrame_content_of_buffer h.valid hbuffer
      cases hended : s.ended with
      | true =>
        simp only [if_true, List.isEmpty_nil, Bool.not_true]
        exact .stop hcut rfl
      | false =>
        simp only [Bool.false_eq_true, if_false, harrivals]
        exact .wait hcut rfl (harrivals ▸ h)
    | cons arrival arrivals =>
      rw [harrivals] at h heq
      cases arrival with
      | failure fault => exact (h.plain _ (List.mem_cons_self ..)).elim
      | bytes chunk =>
        have hchunk : chunk ≠ [] := h.plain _ (List.mem_cons_self ..)
        have hdata : (!chunk.isEmpty) = true := by
          cases chunk with
          | nil => exact absurd rfl hchunk
          | cons b bytes => rfl
        simp only [hdata]
        refine .data ?_
        exact
          { valid := h.valid
            notFailed := h.notFailed
            notEnded := h.notEnded
            settled := h.settled
            plain := fun a ha => h.plain a (List.mem_cons_of_mem _ ha)
            unread_eq := by
              rw [Arrival.contents_cons, ← List.append_assoc] at heq
              exact heq }

end Reader

/-! ## Links -/

namespace Link

/-- A link at which nothing but reading was done. -/
structure OnlyReads (l l' : Link) : Prop where
  writer : l'.writer = l.writer
  stream : ∃ arrivals, l'.stream = { l.stream with arrivals }

namespace OnlyReads

variable {l l' l'' : Link}

@[refl] theorem refl (l : Link) : l.OnlyReads l := ⟨rfl, l.stream.arrivals, rfl⟩

theorem trans (h : l.OnlyReads l') (h' : l'.OnlyReads l'') : l.OnlyReads l'' := by
  obtain ⟨hwriter, arrivals, hstream⟩ := h
  obtain ⟨hwriter', arrivals', hstream'⟩ := h'
  exact ⟨hwriter'.trans hwriter, arrivals', by rw [hstream', hstream]⟩

theorem written (h : l.OnlyReads l') : l'.stream.written = l.stream.written := by
  obtain ⟨-, arrivals, hstream⟩ := h
  rw [hstream]

theorem acceptance (h : l.OnlyReads l') : l'.stream.acceptance = l.stream.acceptance := by
  obtain ⟨-, arrivals, hstream⟩ := h
  rw [hstream]

theorem ended (h : l.OnlyReads l') : l'.stream.ended = l.stream.ended := by
  obtain ⟨-, arrivals, hstream⟩ := h
  rw [hstream]

end OnlyReads

theorem onlyReads_receive (l : Link) : l.OnlyReads l.receive.2 := by
  refine ⟨rfl, ?_⟩
  show ∃ arrivals, (l.reader.receive l.stream).2.2 = { l.stream with arrivals }
  unfold Reader.receive
  split
  · exact ⟨_, rfl⟩
  · split
    · exact ⟨_, rfl⟩
    · split
      · exact ⟨_, rfl⟩
      · exact ⟨_, rfl⟩

theorem onlyReads_awaitData (l : Link) : l.OnlyReads l.awaitData.2 := by
  refine ⟨rfl, ?_⟩
  show ∃ arrivals, (l.reader.awaitData l.stream).2.2 = { l.stream with arrivals }
  unfold Reader.awaitData
  split
  · exact ⟨_, rfl⟩
  · obtain ⟨arrivals, ended, acceptance, written, shut⟩ := l.stream
    match arrivals with
    | [] => cases ended <;> exact ⟨[], rfl⟩
    | .bytes chunk :: arrivals => exact ⟨arrivals, rfl⟩
    | .failure fault :: arrivals => exact ⟨arrivals, rfl⟩

/-- A link whose reader is tidy. -/
def Tidy (l : Link) (unread : Bytes) : Prop :=
  l.reader.Tidy l.stream.arrivals unread

theorem reads_receive {l : Link} {unread : Bytes} (h : l.Tidy unread) :
    Reader.Reads unread l.stream.ended
      (l.receive.1, l.receive.2.reader, l.receive.2.stream.arrivals) :=
  Reader.Tidy.reads_receive h

theorem probes_awaitData {l : Link} {unread : Bytes} (h : l.Tidy unread) :
    Reader.Probes unread l.stream.ended
      (l.awaitData.1, l.awaitData.2.reader, l.awaitData.2.stream.arrivals) :=
  Reader.Tidy.probes_awaitData h

/-- All bytes that were not made into frames are available, but for a prefix that was
taken. -/
theorem Tidy.length_le {l : Link} {unread : Bytes} (h : l.Tidy unread) :
    unread.length ≤ l.available + prefixLength := by
  have hcontent := l.reader.decoder.length_content_le
  have hlength := congrArg List.length h.unread_eq
  rw [List.length_append, List.length_append, Arrival.length_contents] at hlength
  unfold available Stream.arrived
  omega

/-- A chunk that arrives goes behind all that arrived before. -/
theorem Tidy.arrive {l : Link} {unread : Bytes} (h : l.Tidy unread) (chunk : Bytes) :
    (l.happen (.arrive chunk)).Tidy (unread ++ chunk) where
  valid := h.valid
  notFailed := h.notFailed
  notEnded := h.notEnded
  settled := h.settled
  plain a ha := by
    rcases List.mem_append.1 ha with ha | ha
    · exact h.plain a ha
    · exact Stream.isPlain_of_mem_pieces ha
  unread_eq := by
    show l.reader.decoder.content ++ l.reader.front ++
      Arrival.contents (l.stream.arrivals ++ (Stream.pieces chunk).map .bytes) = _
    rw [Arrival.contents_append, Stream.contents_pieces, ← List.append_assoc, h.unread_eq]

end Link

end Parley.Wire
