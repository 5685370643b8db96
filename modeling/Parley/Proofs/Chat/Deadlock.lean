import Mathlib.Tactic.Choose
import Parley.Proofs.Chat.Agreement

/-!
# Pipes that fill up

Where a pipe takes only so many bytes, an end that finds it full waits until the other end reads.
Both ends send before they read: if neither name goes into its pipe as a whole, both of them may
wait for ever to send the rest of it. This is the only way in which two ends come to wait for
each other.

- `Pair.Deadlocked`: a pair of which no end will ever finish.
- `Pair.Jammed`: both ends have something queued, and both pipes are full.
- `Pair.exists_deadlocked`: two ends that wait for each other.
- `Pair.exceeds_of_deadlocked`: both names are then longer than the pipes.
- `Pair.finishes_of_room`: with room for one of the names, both flows finish.
-/

namespace Parley.Chat

open Wire

/-! ## Full pipes -/

/-- Where nothing more is accepted, nothing is written. -/
theorem flush_of_full {l : Link} (haccepts : l.stream.acceptance = .upTo 0 .block)
    (hqueue : l.writer.queue ≠ []) : l.flush = (.waiting, l) := by
  obtain ⟨⟨arrivals, ended, acceptance, written, shut⟩, reader, ⟨queue⟩⟩ := l
  obtain rfl : acceptance = .upTo 0 .block := haccepts
  have hlength : ¬queue.length ≤ 0 := fun h => hqueue (List.length_eq_zero_iff.1 (Nat.le_zero.1 h))
  simp only [Link.flush, Writer.flush, Stream.write, if_neg hlength, List.take_zero,
    List.append_nil, List.drop_zero]
  rfl

/-- An exchange that flushes stays as it is while nothing is accepted. -/
theorem exchangeThen_of_full {α : Type} {l : Link} (haccepts : l.stream.acceptance = .upTo 0 .block)
    (hqueue : l.writer.queue ≠ []) (payload : Bytes) (check : Reception → Except FlowFault α) :
    exchangeThen payload check .flushing l = (.waiting .flushing, l) := by
  rw [exchangeThen, Link.exchange, flush_of_full haccepts hqueue]

theorem End.go_of_full {e : End} {round : Nat} (hplace : e.place = .waiting round .flushing)
    (haccepts : e.link.stream.acceptance = .upTo 0 .block)
    (hqueue : e.link.writer.queue ≠ []) : e.go = e := by
  have hstage : ∀ {r : Nat} {stage : Link.Stage},
      Place.waiting r stage = .waiting round .flushing → stage = .flushing := by
    intro r stage h
    cases h
    rfl
  cases e with
  | signature own progress l =>
    cases progress with
    | finished result => cases hplace
    | waiting stage =>
      obtain rfl := hstage hplace
      rw [End.go, exchangeSignature, exchangeThen_of_full (l := l) haccepts hqueue]
  | handshake name progress f =>
    rcases progress with (stage | stage) | result
    · obtain rfl := hstage hplace
      rw [End.go, Flow.shake, exchangeSignature,
        exchangeThen_of_full (l := f.link) haccepts hqueue]
    · obtain rfl := hstage hplace
      rw [End.go, Flow.shake, Flow.names, exchangeNames,
        exchangeThen_of_full (l := f.link) haccepts hqueue]
    · cases hplace

namespace Pair

/-- The pipes of a pair, with so much room in each of them. -/
def limited (capacity : Side → Nat) (side : Side) : Option Nat :=
  some (capacity side)

/-- A pair of which no end will ever finish. -/
def Deadlocked (capacity : Side → Option Nat) (s : Pair) : Prop :=
  ∀ acts side, ((s.run capacity acts).ends side).place ≠ .finished

/-- Both ends have something queued, and both pipes are full. -/
def Jammed (capacity : Side → Option Nat) (s : Pair) : Prop :=
  ∀ side, (∃ round, (s.ends side).place = .waiting round .flushing) ∧
    (s.ends side).link.writer.queue ≠ [] ∧ s.IsFull capacity side

section Jammed

variable {capacity : Side → Option Nat} {s : Pair}

theorem Jammed.poll (h : s.Jammed capacity) (side : Side) :
    (s.poll capacity side).Jammed capacity := by
  obtain ⟨⟨round, hplace⟩, hqueue, -⟩ := h side
  obtain ⟨-, -, count, hcapacity, hcount⟩ := h side.other
  have haccepts : s.acceptance capacity side = .upTo 0 .block := by
    rw [acceptance, hcapacity]
    exact congrArg (Acceptance.upTo · .block) (Nat.sub_eq_zero_of_le hcount)
  -- The end stays as it is, but for what it may write.
  have hpolled : s.polled capacity side = (s.ends side).happen (.accept (.upTo 0 .block)) := by
    rw [polled, haccepts]
    refine End.go_of_full (by rw [End.place_happen, hplace]) ?_ ?_
    · rw [End.link_happen]
      rfl
    · rw [End.link_happen]
      exact hqueue
  have htransit : (s.poll capacity side).transit side.other = s.transit side.other := by
    rw [transit_poll_other, hpolled, End.link_happen]
    show _ ++ (s.written side).drop (s.written side).length = _
    rw [List.drop_length, List.append_nil]
  intro x
  obtain ⟨hplaces, hqueues, hfull⟩ := h x
  rcases side.eq_or_eq_other x with rfl | rfl
  · rw [IsFull, filled, ends_poll_self, hpolled, End.place_happen, End.link_happen,
      transit_poll_self]
    exact ⟨hplaces, hqueues, hfull⟩
  · rw [IsFull, filled, ends_poll_of_ne side.other_ne, htransit]
    exact ⟨hplaces, hqueues, hfull⟩

theorem Jammed.deliver (h : s.Jammed capacity) (side : Side) (count : Nat) :
    (s.deliver side count).Jammed capacity := by
  intro x
  obtain ⟨hplaces, hqueues, n, hcapacity, hn⟩ := h x
  by_cases hx : x = side
  · subst hx
    have hlength := congrArg List.length (List.take_append_drop count (s.transit x))
    have harrived := (s.ends x).link.stream.arrived_arrive ((s.transit x).take count)
    rw [List.length_append] at hlength
    rw [filled] at hn
    rw [IsFull, filled, ends_deliver_self, End.place_happen, End.link_happen,
      transit_deliver_self]
    refine ⟨hplaces, hqueues, n, hcapacity, ?_⟩
    show n ≤ _ + ((s.ends x).link.stream.arrive ((s.transit x).take count)).arrived
    omega
  · rw [IsFull, filled, ends_deliver_of_ne hx, transit_deliver_of_ne hx]
    exact ⟨hplaces, hqueues, n, hcapacity, hn⟩

/-- Whatever happens, two ends that wait for room go on doing so. -/
theorem Jammed.deadlocked (h : s.Jammed capacity) : s.Deadlocked capacity := by
  intro acts side
  induction acts generalizing s with
  | nil =>
    obtain ⟨⟨round, hplace⟩, -, -⟩ := h side
    show (s.ends side).place ≠ .finished
    rw [hplace]
    exact fun h => nomatch h
  | cons a acts ih =>
    cases a with
    | poll side => exact ih (h.poll side)
    | deliver side count => exact ih (h.deliver side count)

end Jammed

/-- Pipes that take twenty bytes, which is a frame with the signature, and two names of which
the frames have one byte more. -/
theorem jammed_seventeen :
    ((start (introducing fun _ => "aaaaaaaaaaaaaaaaa")).run (limited fun _ => 20)
      [.poll .near, .poll .far, .deliver .near 20, .deliver .far 20, .poll .near, .poll .far,
        .poll .near]).Jammed (limited fun _ => 20) := by
  intro side
  cases side with
  | near => exact ⟨⟨1, rfl⟩, by decide, 20, rfl, by decide⟩
  | far => exact ⟨⟨1, rfl⟩, by decide, 20, rfl, by decide⟩

/-- Two ends that wait for each other: each sends a name that does not go into the pipe, and
would read only behind that. -/
theorem exists_deadlocked :
    ∃ (names : Side → String) (capacity : Side → Nat) (acts : List Act),
      (∀ side, names side ≠ "") ∧ (∀ side, 20 ≤ capacity side) ∧
        ((start (introducing names)).run (limited capacity) acts).Deadlocked (limited capacity) :=
  ⟨fun _ => "aaaaaaaaaaaaaaaaa", fun _ => 20, _,
    fun _ => show "aaaaaaaaaaaaaaaaa" ≠ "" by decide, fun _ => Nat.le_refl 20,
    jammed_seventeen.deadlocked⟩

/-! ## Ends that wait for each other -/

section Limited

variable {scripts : Side → Script} {capacity : Side → Nat} {s : Pair} {side : Side}

/-- At rest, an end that is not finished waits for room or for a frame. -/
theorem flushes_or_starves (hrest : s.AtRest (limited capacity))
    (hplace : (s.ends side).place ≠ .finished) :
    (∃ round, (s.ends side).place = .waiting round .flushing ∧
        (s.ends side).link.writer.queue ≠ [] ∧
        capacity side.other ≤ (s.ends side.other).link.stream.arrived) ∨
      ∃ round, s.Starves side round ∧ (s.ends side).link.stream.arrived = 0 := by
  have hrests := (hrest side).1
  unfold Rests at hrests
  generalize hp : (s.ends side).place = place at hrests hplace
  match place, hrests with
  | .finished, _ => exact absurd rfl hplace
  | .waiting round .flushing, ⟨hqueue, count, hcapacity, hcount⟩ =>
    cases hcapacity
    rw [filled, (hrest side.other).2] at hcount
    exact .inl ⟨round, rfl, hqueue, by simpa using hcount⟩
  | .waiting round .receiving, ⟨harrivals, hunread⟩ =>
    refine .inr ⟨round, ⟨hp, hunread⟩, ?_⟩
    rw [Stream.arrived, harrivals]
    rfl

/-- An end that flushes is not behind its peer, and of the frame of its round the peer has not
read what is in the pipe. -/
theorem Sound.le_of_flushing (h : s.Sound scripts) {round round' : Nat} {stage : Link.Stage}
    (hplace : (s.ends side).place = .waiting round .flushing)
    (hqueue : (s.ends side).link.writer.queue ≠ [])
    (hplace' : (s.ends side.other).place = .waiting round' stage)
    (htransit : s.transit side.other = []) :
    round' ≤ round ∧
      (transcript ((scripts side).payloads.take round')).length +
          (s.ends side.other).link.stream.arrived <
        (transcript ((scripts side).payloads.take (round + 1))).length := by
  have hless := h.written_lt_of_flushing hplace hqueue
  obtain ⟨unread, htidy, hwritten⟩ := h.exists_unread htransit
  rw [hplace', Side.other_other] at hwritten
  change transcript ((scripts side).payloads.take round') ++ unread = _ at hwritten
  have hlength := congrArg List.length hwritten
  have harrived := htidy.arrived_le
  rw [List.length_append] at hlength
  refine ⟨Nat.le_of_not_lt fun hlt => ?_, by omega⟩
  have hprefix : transcript ((scripts side).payloads.take (round + 1)) <+: _ :=
    transcript_take_prefix (Nat.succ_le_of_lt hlt)
  have hle := hprefix.length_le
  omega

/-- Two ends that both wait for room are in the same round, and the frames of that round do not
go into the pipes. -/
theorem Sound.exceeds_of_flushing (h : s.Sound scripts) {round : Side → Nat}
    (hplace : ∀ side, (s.ends side).place = .waiting (round side) .flushing)
    (hqueue : ∀ side, (s.ends side).link.writer.queue ≠ [])
    (hroom : ∀ side : Side, capacity side.other ≤ (s.ends side.other).link.stream.arrived)
    (htransit : ∀ side, s.transit side = []) (side : Side) :
    round side.other = round side ∧
      ∀ p, (scripts side).payloads[round side]? = some p →
        capacity side.other < (frameOf p).length := by
  obtain ⟨hle, hless⟩ :=
    h.le_of_flushing (hplace side) (hqueue side) (hplace side.other) (htransit side.other)
  obtain ⟨hge, -⟩ := h.le_of_flushing (hplace side.other) (hqueue side.other)
    (hplace side.other.other) (htransit side.other.other)
  rw [Side.other_other] at hge
  have hsame : round side.other = round side := Nat.le_antisymm hle hge
  refine ⟨hsame, fun p hp => ?_⟩
  have hroom := hroom side
  rw [hsame, transcript_take_succ hp, List.length_append] at hless
  omega

/-- Two ends that both wait for a frame do so because neither of them can send it. -/
theorem Sound.not_fits_of_starves (hmeets : ∀ side, (scripts side).Meets (scripts side.other))
    (h : s.Sound scripts) {round : Side → Nat}
    (hstarves : ∀ side, s.Starves side (round side)) (htransit : ∀ side, s.transit side = [])
    (side : Side) {q : Bytes} (hq : (scripts side.other).payloads[round side]? = some q) :
    ¬Fits q := fun hfits =>
  h.not_starves hmeets (hstarves side) (htransit side) hq hfits
    (.inr ⟨htransit side.other, round side.other, hstarves side.other⟩)

end Limited

/-- What two flows come to that introduce themselves through pipes with room for a signature, if
they come to rest and neither is finished. -/
theorem exceeds_of_atRest {names : Side → String} (hne : ∀ side, names side ≠ "")
    {capacity : Side → Nat} (hcapacity : ∀ side, 20 ≤ capacity side) {s : Pair}
    (h : s.Sound (introducing names)) (hrest : s.AtRest (limited capacity))
    (hopen : ∀ side, (s.ends side).place ≠ .finished) :
    (∀ side, capacity side.other < (frameOf (Text.Utf8.encode (names side))).length) ∨
      ∀ side, ¬Fits (Text.Utf8.encode (names side)) := by
  have hmeets := meets_introducing hne
  have hcases := fun side => flushes_or_starves hrest (hopen side)
  have hrounds : ∀ {side : Side} {round : Nat} {stage : Link.Stage},
      (s.ends side).place = .waiting round stage → round = 0 ∨ round = 1 := by
    intro side round stage hplace
    have hround : round < 2 := h.round_lt hplace
    omega
  by_cases hflush : ∀ side, ∃ round, (s.ends side).place = .waiting round .flushing ∧
      (s.ends side).link.writer.queue ≠ [] ∧
      capacity side.other ≤ (s.ends side.other).link.stream.arrived
  case pos =>
    choose round hplace hqueue hroom using hflush
    refine .inl fun side => ?_
    obtain ⟨-, hexceeds⟩ := h.exceeds_of_flushing hplace hqueue hroom (fun x => (hrest x).2) side
    rcases hrounds (hplace side) with hround | hround
    · -- A signature goes into the pipe.
      have hsignature := hexceeds signature (by rw [hround]; rfl)
      have hlength : (frameOf signature).length = 20 := by decide
      have hroom' := hcapacity side.other
      omega
    · exact hexceeds _ (by rw [hround]; rfl)
  case neg =>
    obtain ⟨side, hside⟩ := not_forall.1 hflush
    obtain ⟨-, -, harrived⟩ := (hcases side).resolve_left hside
    have hstarve : ∀ x, ∃ round, s.Starves x round := by
      intro x
      rcases hcases x with hx | ⟨round, hstarves, -⟩
      · -- An end that waits for a frame has emptied its pipe.
        rcases x.eq_or_eq_other side with rfl | rfl
        · exact absurd hx hside
        · obtain ⟨-, -, -, hroom⟩ := hx
          have hroom' := hcapacity x.other
          omega
      · exact ⟨round, hstarves⟩
    choose round hstarves using hstarve
    refine .inr fun x => ?_
    have hnot : ∀ q, _ → ¬Fits q := fun q =>
      h.not_fits_of_starves hmeets hstarves (fun x => (hrest x).2) x.other (q := q)
    rw [Side.other_other] at hnot
    rcases hrounds (hstarves x.other).1 with hround | hround
    · exact absurd (by decide) (hnot signature (by rw [hround]; rfl))
    · exact hnot _ (by rw [hround]; rfl)

/-- At rest, an end whose peer is finished is finished as well. -/
theorem Sound.finished_of_finished {scripts : Side → Script} {capacity : Side → Nat} {s : Pair}
    {side : Side} (hmeets : ∀ side, (scripts side).Meets (scripts side.other))
    (h : s.Sound scripts) (hrest : s.AtRest (limited capacity))
    (hplace : (s.ends side.other).place = .finished)
    (hfits : ∀ q ∈ (scripts side.other).payloads, Fits q) :
    (s.ends side).place = .finished := by
  refine Classical.byContradiction fun hopen => ?_
  have hlength := (hmeets side).length_eq
  obtain ⟨round, hflush, hqueue, -⟩ | ⟨round, hstarves, -⟩ := flushes_or_starves hrest hopen
  · -- The peer has taken everything, and so everything was written.
    have hround := h.round_lt hflush
    have hless := h.written_lt_of_flushing hflush hqueue
    obtain ⟨unread, -, hwritten⟩ := h.exists_unread (hrest side.other).2
    rw [hplace, Side.other_other] at hwritten
    change transcript ((scripts side).payloads.take (scripts side.other).payloads.length) ++
      unread = _ at hwritten
    have hprefix : transcript ((scripts side).payloads.take (round + 1)) <+:
        transcript ((scripts side).payloads.take (scripts side.other).payloads.length) :=
      transcript_take_prefix (by omega)
    have hle := hprefix.length_le
    rw [← hwritten, List.length_append] at hless
    omega
  · have hround : round < (scripts side.other).payloads.length :=
      hlength ▸ h.round_lt hstarves.1
    exact h.not_starves hmeets hstarves (hrest side).2 (List.getElem?_eq_getElem hround)
      (hfits _ (List.getElem_mem hround)) (.inl hplace)

section Flows

variable {names : Side → String} (hne : ∀ side, names side ≠ "") {capacity : Side → Nat}
  (hcapacity : ∀ side, 20 ≤ capacity side)

include hne hcapacity

/-- Two flows come to wait for each other for ever only if each of their names is longer than
the pipe it has to go through, or neither of them fits a frame at all. -/
theorem exceeds_of_deadlocked {acts : List Act}
    (hdead : ((start (introducing names)).run (limited capacity) acts).Deadlocked
      (limited capacity)) :
    (∀ side, capacity side.other < (frameOf (Text.Utf8.encode (names side))).length) ∨
      ∀ side, ¬Fits (Text.Utf8.encode (names side)) := by
  have hmeets := meets_introducing hne
  have h : ((start (introducing names)).run (limited capacity) acts).Sound (introducing names) :=
    (sound_start (introducing names)).run hmeets acts
  obtain ⟨n, -, hrest⟩ := h.exists_atRest hmeets fair_roundRobin (limited capacity) 0
  exact exceeds_of_atRest hne hcapacity (h.after hmeets _ _ n) hrest fun side => hdead _ side

/-- If one of the names goes into its pipe, every fair schedule brings both flows to the end of
their handshakes. -/
theorem finishes_of_room (hfits : ∀ side, Fits (Text.Utf8.encode (names side)))
    (hroom : ∃ side : Side,
      (frameOf (Text.Utf8.encode (names side))).length ≤ capacity side.other)
    {schedule : Nat → Act} (hfair : Fair schedule) :
    ∃ n, ∀ m, n ≤ m → ∀ side,
      (((start (introducing names)).after (limited capacity) schedule m).ends side).place =
        .finished := by
  have hmeets := meets_introducing hne
  have h := sound_start (introducing names)
  obtain ⟨n, -, hrest⟩ := h.exists_atRest hmeets hfair (limited capacity) 0
  have hsound := h.after hmeets (limited capacity) schedule n
  have hall : ∀ side, ∀ q ∈ (introducing names side).payloads, Fits q := by
    intro side q hq
    rcases List.mem_cons.1 hq with rfl | hq
    · decide
    · rw [List.mem_singleton.1 hq]
      exact hfits side
  obtain ⟨side, hplace⟩ : ∃ side,
      (((start (introducing names)).after (limited capacity) schedule n).ends side).place =
        .finished := by
    refine Classical.byContradiction fun hopen => ?_
    rcases exceeds_of_atRest hne hcapacity hsound hrest fun side h => hopen ⟨side, h⟩ with
      hexceeds | hnone
    · obtain ⟨side, hle⟩ := hroom
      exact Nat.not_lt.2 hle (hexceeds side)
    · exact hnone .near (hfits .near)
  refine ⟨n, fun m hm x => finished_after hm ?_⟩
  rcases side.eq_or_eq_other x with rfl | rfl
  · exact hplace
  · exact hsound.finished_of_finished hmeets hrest (by rw [Side.other_other, hplace])
      (hall side.other.other)

end Flows

/-- Two names of which the frames have one byte more than the pipes. -/
theorem exceeds_of_deadlocked_seventeen :
    ((start (introducing fun _ => "aaaaaaaaaaaaaaaaa")).run (limited fun _ => 20)
        [.poll .near, .poll .far, .deliver .near 20, .deliver .far 20, .poll .near, .poll .far,
          .poll .near]).Deadlocked (limited fun _ => 20) ∧
      20 < (frameOf (Text.Utf8.encode "aaaaaaaaaaaaaaaaa")).length := by
  have hdead := jammed_seventeen.deadlocked
  obtain hexceeds | hnone := exceeds_of_deadlocked
    (fun _ => show "aaaaaaaaaaaaaaaaa" ≠ "" by decide) (fun _ => Nat.le_refl 20) hdead
  · exact ⟨hdead, hexceeds .near⟩
  · exact absurd (by decide) (hnone .near)

end Pair

end Parley.Chat
