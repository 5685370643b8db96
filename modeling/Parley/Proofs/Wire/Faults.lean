import Parley.Proofs.Text.RoundTrip
import Parley.Proofs.Wire.Traffic

/-!
# Reading on after a fault

A fault costs a reader one reception. The one after it finds nothing and does not read; with the
next one the reader goes on behind what it could not read, so that a payload may follow a fault
after all. Nothing is found for good only at the end of the stream.

- `Reader.AtEnd`: what is known of a reader that has found the end of the stream.
- `Reader.Goes`, `Reader.Ready.goes_receive`: what a reception comes to if the one before it met
  no fault.
- `Listener`: a link that is only read, with what its receptions have come to.
- `Listener.Follows`: what every step keeps.
- `Listener.received_run`: frames and faults, each fault with one empty reception behind it.
- `Listener.exists_frame_after_fault`: a payload behind a prefix that announced none.
-/

namespace Parley.Wire

/-! ## Readers -/

namespace Reader

variable {ended : Bool} {r : Reader} {arrivals : List Arrival} {s : Stream}

/-- A reader that has found the end of the stream has given everything to its decoder. -/
def AtEnd (ended : Bool) (r : Reader) (arrivals : List Arrival) : Prop :=
  r.ended = true → ended = true ∧ r.front = [] ∧ arrivals = []

/-- A reader whose last reception met no fault, or whose fault is over. -/
structure Ready (ended : Bool) (r : Reader) (arrivals : List Arrival) : Prop where
  notFailed : r.failed = false
  atEnd : AtEnd ended r arrivals

/-- A reader that has found the end of the stream and nothing before it. -/
structure Finished (r : Reader) (arrivals : List Arrival) : Prop where
  notFailed : r.failed = false
  ended : r.ended = true
  notReadable : r.readable = false
  front : r.front = []
  arrivals : arrivals = []

/-- What a reception comes to. `ended` is whether the stream ends behind what has arrived. -/
inductive Goes (ended : Bool) : Attempt Reception × Reader × List Arrival → Prop
  | frame {payload : Bytes} {r : Reader} {arrivals : List Arrival}
      (hready : r.Ready ended arrivals) : Goes ended (.done (.frame payload), r, arrivals)
  | fault {fault : FrameFault} {r : Reader} {arrivals : List Arrival} (hfailed : r.failed = true)
      (hend : AtEnd ended r arrivals) : Goes ended (.done (.broken fault), r, arrivals)
  /-- Nothing is found only at the end of the stream. -/
  | stop {r : Reader} {arrivals : List Arrival} (hended : ended = true)
      (hfinished : r.Finished arrivals) : Goes ended (.done .nothing, r, arrivals)
  /-- There is something to wait for only before the end. -/
  | wait {r : Reader} {arrivals : List Arrival} (hended : ended = false)
      (hready : r.Ready ended arrivals) : Goes ended (.waiting, r, arrivals)

theorem Goes.ended_of_nothing {result : Attempt Reception × Reader × List Arrival}
    (h : Goes ended result) (hnothing : result.1 = .done .nothing) : ended = true := by
  cases h with
  | stop hended => exact hended
  | frame | fault | wait => cases hnothing

theorem Goes.open_of_waiting {result : Attempt Reception × Reader × List Arrival}
    (h : Goes ended result) (hwaiting : result.1 = .waiting) : ended = false := by
  cases h with
  | wait hended => exact hended
  | frame | fault | stop => cases hwaiting

/-! ### One reception -/

/-- What can be said without reading, or that the decoder need not be asked again. -/
theorem Ready.goes_settle (h : r.Ready ended arrivals) :
    (∃ reception r', r.settle = (some reception, r') ∧
        Goes ended (.done reception, r', arrivals)) ∨
      (∃ r', r.settle = (none, r') ∧ r'.Ready ended arrivals ∧ r'.front = r.front ∧
        r'.readable = false) ∧ (r.readable = true → r.ended = false) := by
  obtain ⟨front, decoder, ended', readable, failed⟩ := r
  obtain rfl : failed = false := h.notFailed
  cases readable with
  | false => exact .inr ⟨⟨_, rfl, h, rfl, rfl⟩, nofun⟩
  | true =>
    unfold settle
    simp only [Bool.false_eq_true, if_false, if_true]
    generalize (if ended' = true then decoder.finish else decoder.next) = result
    obtain ⟨fault | _ | payload, decoder'⟩ := result
    · exact .inl ⟨_, _, rfl, .fault rfl h.atEnd⟩
    · cases ended' with
      | false => exact .inr ⟨⟨_, rfl, ⟨rfl, nofun⟩, rfl, rfl⟩, fun _ => rfl⟩
      | true =>
        obtain ⟨hended, hfront, harrivals⟩ := h.atEnd rfl
        exact .inl ⟨_, _, rfl, .stop hended ⟨rfl, rfl, rfl, hfront, harrivals⟩⟩
    · exact .inl ⟨_, _, rfl, .frame ⟨rfl, h.atEnd⟩⟩

/-- Bytes that are read lie before the end. -/
theorem Ready.feed (h : r.Ready ended arrivals) (chunk : Bytes) (behind : List Arrival) :
    (r.feed chunk).Ready ended behind :=
  ⟨h.notFailed, nofun⟩

theorem Ready.goes_readOn (arrivals : List Arrival) {r : Reader} (h : r.Ready ended arrivals)
    (hfront : r.front = []) (hreadable : r.readable = false) :
    Goes ended (readOn ended r arrivals) := by
  -- In every round the bytes of one arrival go to the decoder, which may have nothing to say.
  induction arrivals generalizing r with
  | nil =>
    rw [readOn]
    cases hended : ended with
    | false => exact .wait rfl (hended ▸ h)
    | true =>
      rw [if_pos rfl]
      split
      case isTrue hend => exact .stop rfl ⟨h.notFailed, hend, hreadable, hfront, rfl⟩
      case isFalse =>
        have hlast : ({ r with ended := true, readable := true } : Reader).Ready true [] :=
          ⟨h.notFailed, fun _ => ⟨rfl, hfront, rfl⟩⟩
        obtain ⟨reception, r', hsettle, hgoes⟩ | ⟨-, hnot⟩ := hlast.goes_settle
        · rw [hsettle]
          exact hgoes
        · exact absurd (hnot rfl) Bool.noConfusion
  | cons arrival arrivals ih =>
    cases arrival with
    | failure fault =>
      -- an arrival that was not read lies before the end
      refine .fault rfl fun hend => ?_
      exact absurd (h.atEnd hend).2.2 (List.cons_ne_nil _ _)
    | bytes chunk =>
      rw [readOn]
      obtain ⟨reception, r', hsettle, hgoes⟩ | ⟨⟨r', hsettle, hready, hfront', hreadable'⟩, -⟩ :=
        (h.feed chunk arrivals).goes_settle
      · rw [hsettle]
        exact hgoes
      · rw [hsettle]
        exact ih hready (hfront'.trans hfront) hreadable'

theorem Ready.goes_receive (h : r.Ready s.ended s.arrivals) :
    Goes s.ended ((r.receive s).1, (r.receive s).2.1, (r.receive s).2.2.arrivals) := by
  unfold receive
  obtain ⟨reception, r', hsettle, hgoes⟩ | ⟨⟨r', hsettle, hready, -, hreadable⟩, -⟩ := h.goes_settle
  · rw [hsettle]
    exact hgoes
  · rw [hsettle]
    dsimp only
    split
    case isTrue hfront =>
      rw [receiveFrom_eq]
      exact hready.goes_readOn s.arrivals (List.isEmpty_iff.1 hfront) hreadable
    case isFalse =>
      have hemptied : ({ r' with front := [] } : Reader).Ready s.ended s.arrivals :=
        ⟨hready.notFailed, fun hend => ⟨(hready.atEnd hend).1, rfl, (hready.atEnd hend).2.2⟩⟩
      have hfed := hemptied.feed r'.front s.arrivals
      obtain ⟨reception, r'', hsettle', hgoes⟩ |
        ⟨⟨r'', hsettle', hready', hfront, hreadable'⟩, -⟩ := hfed.goes_settle
      · rw [hsettle']
        exact hgoes
      · rw [hsettle']
        dsimp only
        rw [receiveFrom_eq]
        exact hready'.goes_readOn s.arrivals hfront hreadable'

/-- Behind a fault, one reception finds nothing and does not read. -/
theorem receive_of_failed (h : r.failed = true) (s : Stream) :
    r.receive s = (.done .nothing, { r with failed := false, readable := false }, s) := by
  unfold receive settle
  rw [if_pos h]

theorem Finished.receive (h : r.Finished s.arrivals) (hended : s.ended = true) :
    r.receive s = (.done .nothing, r, s) := by
  obtain ⟨front, decoder, ended, readable, failed⟩ := r
  obtain ⟨rfl, rfl, rfl, rfl, harrivals⟩ := h
  obtain ⟨arrivals, ended, acceptance, written, shut⟩ := s
  obtain rfl : arrivals = [] := harrivals
  obtain rfl : ended = true := hended
  rfl

/-! ### Looking for data -/

/-- Looking for data only moves bytes to the front. -/
theorem awaitData_eq (r : Reader) (s : Stream) :
    (r.awaitData s).2.1 = { r with front := (r.awaitData s).2.1.front } := by
  unfold awaitData
  split
  · rfl
  · rcases s.read with ⟨_ | _ | _, s'⟩ <;> rfl

theorem AtEnd.awaitData (h : AtEnd s.ended r s.arrivals) :
    AtEnd s.ended (r.awaitData s).2.1 (r.awaitData s).2.2.arrivals := by
  intro hend
  rw [awaitData_eq] at hend
  obtain ⟨hended, hfront, harrivals⟩ := h hend
  unfold Reader.awaitData
  rw [Stream.read_of_nil harrivals, if_pos hended]
  split
  · exact ⟨hended, hfront, harrivals⟩
  · exact ⟨hended, rfl, harrivals⟩

end Reader

/-! ## Listening -/

/-- A link that is only read, with what its receptions have come to. -/
structure Listener where
  link : Link
  /-- The bytes that have arrived. -/
  arrived : Bytes
  /-- What was received. -/
  log : List Reception

/-- What a reception, or a fault, is received as. -/
inductive Round where
  | frame (payload : Bytes)
  | fault (cause : FrameFault)

/-- Behind a fault there is one empty reception. -/
def Round.receptions : Round → List Reception
  | .frame payload => [.frame payload]
  | .fault cause => [.broken cause, .nothing]

namespace Listener

/-- Something that happens at a link that is only read. -/
inductive Act where
  /-- The far end does something. Nothing arrives behind the end of the stream. -/
  | far (event : Stream.FarEvent)
  /-- One attempt to receive something. One that has to wait is given up. -/
  | receive
  /-- One attempt to see whether there is anything to read. -/
  | probe

/-- Nothing has happened yet. -/
def fresh : Listener where
  link := .ofStream .idle
  arrived := []
  log := []

def receive (m : Listener) : Listener :=
  match m.link.receive with
  | (.waiting, link) => { m with link }
  | (.done reception, link) => { m with link, log := m.log ++ [reception] }

def act (m : Listener) : Act → Listener
  | .far event =>
    if m.link.stream.ended then m
    else { m with link := m.link.happen event, arrived := m.arrived ++ event.chunk }
  | .receive => m.receive
  | .probe => { m with link := m.link.awaitData.2 }

def run (m : Listener) (acts : List Act) : Listener :=
  acts.foldl act m

/-- What was received so far: rounds, and behind them a fault that is still to cost a reception,
or the end of the stream. -/
inductive Follows (m : Listener) : Prop
  | reading (rounds : List Round) (hlog : m.log = rounds.flatMap Round.receptions)
      (hready : m.link.reader.Ready m.link.stream.ended m.link.stream.arrivals)
  | failed (rounds : List Round) (cause : FrameFault)
      (hlog : m.log = rounds.flatMap Round.receptions ++ [.broken cause])
      (hfailed : m.link.reader.failed = true)
      (hend : Reader.AtEnd m.link.stream.ended m.link.reader m.link.stream.arrivals)
  | finished (rounds : List Round) (count : Nat)
      (hlog : m.log = rounds.flatMap Round.receptions ++ List.replicate count .nothing)
      (hended : m.link.stream.ended = true)
      (hfinished : m.link.reader.Finished m.link.stream.arrivals)

/-! ### Steps -/

variable {m : Listener}

theorem flatMap_receptions_snoc (rounds : List Round) (round : Round) :
    (rounds ++ [round]).flatMap Round.receptions =
      rounds.flatMap Round.receptions ++ round.receptions := by
  rw [List.flatMap_append, List.flatMap_singleton]

theorem receive_of_done {reception : Reception} {l : Link}
    (h : m.link.receive = (.done reception, l)) :
    m.receive = { m with link := l, log := m.log ++ [reception] } := by
  unfold receive
  rw [h]

/-- A reception takes nothing from the stream if the one before it met a fault, or at the end. -/
theorem receive_nothing {r : Reader}
    (h : m.link.reader.receive m.link.stream = (.done .nothing, r, m.link.stream)) :
    m.link.receive = (.done .nothing, { m.link with reader := r }) := by
  unfold Link.receive
  rw [h]

theorem Follows.receive (h : m.Follows) : m.receive.Follows := by
  cases h with
  | reading rounds hlog hready =>
    have hgoes : Reader.Goes m.link.stream.ended
      (m.link.receive.1, m.link.receive.2.reader, m.link.receive.2.stream.arrivals) :=
      hready.goes_receive
    rw [← m.link.onlyReads_receive.ended] at hgoes
    unfold Listener.receive
    generalize m.link.receive = received at hgoes ⊢
    obtain ⟨attempt, l⟩ := received
    cases hgoes with
    | @frame payload _ _ hready' =>
      refine .reading (rounds ++ [.frame payload]) ?_ hready'
      rw [flatMap_receptions_snoc, ← hlog]
      rfl
    | @fault cause _ _ hfailed hend => exact .failed rounds cause (by rw [hlog]) hfailed hend
    | stop hended hfinished => exact .finished rounds 1 (by rw [hlog]; rfl) hended hfinished
    | wait _ hready' => exact .reading rounds hlog hready'
  | failed rounds cause hlog hfailed hend =>
    rw [receive_of_done (receive_nothing (Reader.receive_of_failed hfailed m.link.stream))]
    refine .reading (rounds ++ [.fault cause]) ?_ ⟨rfl, hend⟩
    rw [flatMap_receptions_snoc, hlog, List.append_assoc]
    rfl
  | finished rounds count hlog hended hfinished =>
    rw [receive_of_done (receive_nothing (hfinished.receive hended))]
    refine .finished rounds (count + 1) ?_ hended hfinished
    rw [List.replicate_succ', ← List.append_assoc, ← hlog]

theorem Follows.far (h : m.Follows) (event : Stream.FarEvent) : (m.act (.far event)).Follows := by
  rw [act]
  split
  case isTrue => exact h
  case isFalse hopen =>
    -- a reader that has found the end stands at a stream that has ended
    cases h with
    | reading rounds hlog hready =>
      exact .reading rounds hlog ⟨hready.notFailed, fun hend => absurd (hready.atEnd hend).1 hopen⟩
    | failed rounds cause hlog hfailed hend =>
      exact .failed rounds cause hlog hfailed fun hend' => absurd (hend hend').1 hopen
    | finished rounds count hlog hended hfinished => exact absurd hended hopen

theorem Follows.probe (h : m.Follows) : (m.act .probe).Follows := by
  have hreader : m.link.awaitData.2.reader =
      { m.link.reader with front := m.link.awaitData.2.reader.front } :=
    Reader.awaitData_eq m.link.reader m.link.stream
  have hended := m.link.onlyReads_awaitData.ended
  have hkeeps : Reader.AtEnd m.link.stream.ended m.link.reader m.link.stream.arrivals →
      Reader.AtEnd m.link.awaitData.2.stream.ended m.link.awaitData.2.reader
        m.link.awaitData.2.stream.arrivals := fun hend => hended ▸ hend.awaitData
  unfold act
  generalize m.link.awaitData.2 = l at hreader hended hkeeps ⊢
  cases h with
  | reading rounds hlog hready =>
    exact .reading rounds hlog ⟨by rw [hreader]; exact hready.notFailed, hkeeps hready.atEnd⟩
  | failed rounds cause hlog hfailed hend =>
    exact .failed rounds cause hlog (by rw [hreader]; exact hfailed) (hkeeps hend)
  | finished rounds count hlog hended' hfinished =>
    have hfound : l.reader.ended = true := by
      rw [hreader]
      exact hfinished.ended
    obtain ⟨hstop, hfront, harrivals⟩ := hkeeps
      (fun _ => ⟨hended', hfinished.front, hfinished.arrivals⟩) hfound
    refine .finished rounds count hlog hstop ⟨?_, hfound, ?_, hfront, harrivals⟩
    · rw [hreader]
      exact hfinished.notFailed
    · rw [hreader]
      exact hfinished.notReadable

theorem follows_run (acts : List Act) (h : m.Follows) : (m.run acts).Follows := by
  induction acts generalizing m with
  | nil => exact h
  | cons a acts ih =>
    cases a with
    | far event => exact ih (h.far event)
    | receive => exact ih h.receive
    | probe => exact ih h.probe

/-! ### What is taken -/

/-- The payloads that were received are those in the bytes that arrived, in order. -/
theorem exists_passes_run (acts : List Act)
    (h : ∃ unread, m.link.Holds unread ∧
      Passes m.arrived (m.log.flatMap Reception.taken) unread) :
    ∃ unread, (m.run acts).link.Holds unread ∧
      Passes (m.run acts).arrived ((m.run acts).log.flatMap Reception.taken) unread := by
  induction acts generalizing m with
  | nil => exact h
  | cons a acts ih =>
    refine ih ?_
    obtain ⟨unread, hholds, hpasses⟩ := h
    cases a with
    | far event =>
      rw [act]
      split
      · exact ⟨unread, hholds, hpasses⟩
      · exact ⟨_, hholds.happen event, hpasses.append event.chunk⟩
    | receive =>
      obtain ⟨rest, hrest, hpasses'⟩ := m.link.takes_receive.passes unread hholds
      have hboth := hpasses.trans hpasses'
      show ∃ unread, m.receive.link.Holds unread ∧
        Passes m.receive.arrived (m.receive.log.flatMap Reception.taken) unread
      unfold Listener.receive
      generalize m.link.receive = received at hrest hboth ⊢
      obtain ⟨_ | reception, l⟩ := received
      · exact ⟨rest, hrest, by rwa [Attempt.taken, List.append_nil] at hboth⟩
      · refine ⟨rest, hrest, ?_⟩
        rw [List.flatMap_append, List.flatMap_singleton]
        exact hboth
    | probe =>
      obtain ⟨rest, hrest, hpasses'⟩ := m.link.takes_awaitData.passes unread hholds
      have hboth := hpasses.trans hpasses'
      rw [List.append_nil] at hboth
      exact ⟨rest, hrest, hboth⟩

theorem ne_nil_of_mem_payloads {bytes payload : Bytes} (h : payload ∈ payloads bytes) :
    payload ≠ [] := by
  induction hlength : bytes.length using Nat.strongRecOn generalizing bytes with
  | ind length ih =>
    cases hcut : cutFrame bytes with
    | none =>
      rw [payloads, frames_of_short hcut] at h
      cases h
    | some found =>
      obtain ⟨event, rest⟩ := found
      rw [payloads_of_cut hcut, List.mem_append] at h
      rcases h with h | h
      · cases event with
        | error fault => cases h
        | ok taken =>
          obtain rfl : payload = taken := List.mem_singleton.1 h
          exact payload_ne_nil_of_cutFrame hcut
      · exact ih rest.length (hlength ▸ length_lt_of_cutFrame hcut) h rfl

/-- What is received at a link are frames and faults, and exactly one empty reception behind each
fault. It is empty without having to wait, and takes nothing from the stream; the reader goes on
then, so that what follows the bytes that were not a frame is received. Otherwise nothing is
received only at the end of the stream, and from then on nothing else is. The payloads are those
in the bytes that arrived, in order, and none of them is empty. -/
theorem received_run (acts : List Act) :
    (∃ (rounds : List Round) (rest : List Reception),
      (fresh.run acts).log = rounds.flatMap Round.receptions ++ rest ∧
      (rest = [] ∧
          ((fresh.run acts).link.receive.1 = .done .nothing →
            (fresh.run acts).link.stream.ended = true) ∨
        (∃ cause, rest = [.broken cause]) ∧
          (fresh.run acts).link.receive.1 = .done .nothing ∧
          (fresh.run acts).link.receive.2.stream = (fresh.run acts).link.stream ∨
        (∃ count, rest = List.replicate count .nothing) ∧
          (fresh.run acts).link.stream.ended = true ∧
          (fresh.run acts).link.receive.1 = .done .nothing)) ∧
      (fresh.run acts).log.flatMap Reception.taken <+: payloads (fresh.run acts).arrived ∧
      (∀ payload, .frame payload ∈ (fresh.run acts).log →
        payload ≠ [] ∧ (Reception.frame payload).text ≠ "") ∧
      ((fresh.run acts).link.receive.1 = .waiting →
        (fresh.run acts).link.stream.ended = false) := by
  have h : (fresh.run acts).Follows :=
    follows_run acts (.reading [] rfl ⟨rfl, nofun⟩)
  obtain ⟨unread, -, hpasses⟩ := exists_passes_run acts
    (m := fresh) ⟨[], Link.holds_ofStream_idle, .refl []⟩
  have htaken := hpasses []
  generalize fresh.run acts = m at h htaken ⊢
  rw [List.append_nil] at htaken
  refine ⟨?_, ⟨_, htaken.symm⟩, fun payload hmem => ?_, fun hwaiting => ?_⟩
  · cases h with
    | reading rounds hlog hready =>
      exact ⟨rounds, [], by rw [List.append_nil, hlog],
        .inl ⟨rfl, hready.goes_receive.ended_of_nothing⟩⟩
    | failed rounds cause hlog hfailed hend =>
      have hnothing := receive_nothing (Reader.receive_of_failed hfailed m.link.stream)
      exact ⟨rounds, _, hlog, .inr (.inl ⟨⟨cause, rfl⟩, by rw [hnothing], by rw [hnothing]⟩)⟩
    | finished rounds count hlog hended hfinished =>
      have hnothing := receive_nothing (hfinished.receive hended)
      exact ⟨rounds, _, hlog, .inr (.inr ⟨⟨count, rfl⟩, hended, by rw [hnothing]⟩)⟩
  · have hpayload : payload ∈ payloads m.arrived := by
      rw [htaken]
      exact List.mem_append_left _ (List.mem_flatMap.2 ⟨_, hmem, List.mem_singleton_self _⟩)
    have hne := ne_nil_of_mem_payloads hpayload
    exact ⟨hne, Text.Utf8.decodeLossy_ne_empty hne⟩
  · cases h with
    | reading rounds hlog hready => exact hready.goes_receive.open_of_waiting hwaiting
    | failed rounds cause hlog hfailed hend =>
      rw [receive_nothing (Reader.receive_of_failed hfailed m.link.stream)] at hwaiting
      cases hwaiting
    | finished rounds count hlog hended hfinished =>
      rw [receive_nothing (hfinished.receive hended)] at hwaiting
      cases hwaiting

/-- A prefix that announces nothing, and a frame behind it: the frame is received. -/
theorem exists_frame_after_fault :
    (fresh.run [.far (.arrive (prefixBytes 0)), .receive, .receive,
        .far (.arrive (frameBytes (Text.Utf8.encode "x"))), .receive]).log =
      [.broken .emptyFrame, .nothing, .frame (Text.Utf8.encode "x")] :=
  rfl

end Listener

end Parley.Wire
