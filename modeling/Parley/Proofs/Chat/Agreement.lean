import Parley.Chat.Session
import Parley.Proofs.Chat.Pairs

/-!
# Two ends agree

Where nothing limits what an end may write, and all that is to be sent fits its frames, both ends
of an exchange come to its end, whatever the order of their steps and however the bytes are cut:
they find the same signature, or a different one, and hear each other's names. Neither of them
ever waits for something that will not come. But what fits no frame is not sent at all, and then
the other end waits for it for ever.

- `Pair.Starves`: an end that has taken all it can of what has arrived.
- `Sound.written_lt_of_starves`: its peer has not yet written what it waits for.
- `Pair.Waits`: an end that would not get further if it were polled.
- `Sound.fits_of_finished`: an end that is finished has taken all payloads in frames.
- `Pair.agreement`: both ends agree, and finish exactly if the payloads fit.
-/

namespace Parley.Chat

open Wire

namespace Pair

/-- An end that has taken all it can of what has arrived. -/
def Starves (s : Pair) (side : Side) (round : Nat) : Prop :=
  (s.ends side).place = .waiting round .receiving ∧
    ∃ unread, (s.ends side).link.Tidy unread ∧ cutFrame unread = none

section Sound

variable {scripts : Side → Script} {s : Pair} {side : Side} {round : Nat}

/-- An end that has nothing queued has written all that it handed to its writer. -/
theorem Sound.written_of_flushed (h : s.Sound scripts)
    (hplace : ∀ r, (s.ends side).place ≠ .waiting r .flushing) :
    s.written side = transcript ((scripts side).payloads.take
      ((s.ends side).place.sent (scripts side).payloads.length)) := by
  obtain ⟨arrived, hstands, -⟩ := h.exists_arrived side
  have hout := hstands.standing.out
  rw [h.script, Link.out, hstands.standing.flushed hplace, List.append_nil] at hout
  exact hout

/-- An end that flushes has not written all that it handed to its writer. -/
theorem Sound.written_lt_of_flushing (h : s.Sound scripts)
    (hplace : (s.ends side).place = .waiting round .flushing)
    (hqueue : (s.ends side).link.writer.queue ≠ []) :
    (s.written side).length <
      (transcript ((scripts side).payloads.take (round + 1))).length := by
  obtain ⟨arrived, hstands, -⟩ := h.exists_arrived side
  have hout := congrArg List.length hstands.standing.out
  have hpos := List.length_pos_iff.2 hqueue
  rw [h.script, hplace, Link.out, List.length_append] at hout
  change _ = (transcript ((scripts side).payloads.take (round + 1))).length at hout
  rw [written]
  omega

theorem Sound.round_lt (h : s.Sound scripts) {stage : Link.Stage}
    (hplace : (s.ends side).place = .waiting round stage) :
    round < (scripts side).payloads.length := by
  obtain ⟨arrived, hstands, -⟩ := h.exists_arrived side
  have hround := hstands.standing.round_lt round stage hplace
  rwa [h.script] at hround

/-- With nothing on its way to an end, all that its peer has written is taken or unread. -/
theorem Sound.exists_unread (h : s.Sound scripts) (htransit : s.transit side = []) :
    ∃ unread, (s.ends side).link.Tidy unread ∧
      transcript ((scripts side.other).payloads.take
        ((s.ends side).place.taken (scripts side).payloads.length)) ++ unread =
          s.written side.other := by
  obtain ⟨arrived, hstands, harrived⟩ := h.exists_arrived side
  obtain ⟨unread, htidy, hunread⟩ := hstands.standing.exists_unread
  rw [htransit, List.append_nil] at harrived
  rw [h.script, harrived] at hunread
  exact ⟨unread, htidy, hunread⟩

variable (hmeets : ∀ side, (scripts side).Meets (scripts side.other))

include hmeets

/-- What an end waits for was not written yet. -/
theorem Sound.written_lt_of_starves (h : s.Sound scripts) (hstarves : s.Starves side round)
    (htransit : s.transit side = []) {q : Bytes}
    (hq : (scripts side.other).payloads[round]? = some q) (hfits : Fits q) :
    (s.written side.other).length <
      (transcript ((scripts side.other).payloads.take (round + 1))).length := by
  obtain ⟨hplace, unread, htidy, hcut⟩ := hstarves
  obtain ⟨unread', htidy', hwritten⟩ := h.exists_unread htransit
  obtain rfl : unread' = unread := htidy'.unread_eq.symm.trans htidy.unread_eq
  rw [hplace] at hwritten
  change transcript ((scripts side.other).payloads.take round) ++ unread' = _ at hwritten
  have hprefix := hwritten ▸ h.written_prefix_transcript side.other
  obtain ⟨-, hshort⟩ | ⟨-, left, hsome, -⟩ := cutFrame_of_prefix (hmeets side).proper hq hprefix
  · rw [← hwritten, transcript_take_succ hq, List.length_append, List.length_append]
    exact Nat.add_lt_add_left (hshort hfits) _
  · cases hcut.symm.trans hsome

/-- An end never waits for what its peer has sent. -/
theorem Sound.sent_le_of_starves (h : s.Sound scripts) (hstarves : s.Starves side round)
    (htransit : s.transit side = []) {q : Bytes}
    (hq : (scripts side.other).payloads[round]? = some q) (hfits : Fits q)
    (hplace : ∀ r, (s.ends side.other).place ≠ .waiting r .flushing) :
    (s.ends side.other).place.sent (scripts side.other).payloads.length ≤ round := by
  have hless := h.written_lt_of_starves hmeets hstarves htransit hq hfits
  rw [h.written_of_flushed hplace] at hless
  refine Nat.le_of_not_lt fun hlt => ?_
  have hprefix : transcript ((scripts side.other).payloads.take (round + 1)) <+: _ :=
    transcript_take_prefix (Nat.succ_le_of_lt hlt)
  exact Nat.not_lt.2 hprefix.length_le hless

/-- Two ends never wait for each other, and neither waits for one that is finished. -/
theorem Sound.not_starves (h : s.Sound scripts) (hstarves : s.Starves side round)
    (htransit : s.transit side = []) {q : Bytes}
    (hq : (scripts side.other).payloads[round]? = some q) (hfits : Fits q)
    (hother : (s.ends side.other).place = .finished ∨
      s.transit side.other = [] ∧ ∃ r, s.Starves side.other r) : False := by
  have hround := h.round_lt hstarves.1
  have hlength := (hmeets side).length_eq
  obtain hplace | ⟨htransit', r, hstarves'⟩ := hother
  · have hsent := h.sent_le_of_starves hmeets hstarves htransit hq hfits fun r => by
      rw [hplace]
      exact fun h => nomatch h
    rw [hplace] at hsent
    change (scripts side.other).payloads.length ≤ round at hsent
    omega
  · have hsent := h.sent_le_of_starves hmeets hstarves htransit hq hfits fun r => by
      rw [hstarves'.1]
      exact fun h => nomatch h
    rw [hstarves'.1] at hsent
    change r + 1 ≤ round at hsent
    -- The peer is in an earlier round, the payload of which fits a frame.
    obtain ⟨p, hp⟩ : ∃ p, (scripts side).payloads[r]? = some p :=
      ⟨_, List.getElem?_eq_getElem (by omega)⟩
    have hfits' : Fits p :=
      ((hmeets side).symm.proper r p hp).2.resolve_right (by omega)
    rw [← side.other_other] at hp
    have hsent' := h.sent_le_of_starves hmeets hstarves' htransit' hp hfits' fun r => by
      rw [Side.other_other, hstarves.1]
      exact fun h => nomatch h
    rw [Side.other_other, hstarves.1] at hsent'
    change round + 1 ≤ r at hsent'
    omega

end Sound

/-! ## Ends that wait -/

/-- Pipes that take any number of bytes. -/
def unlimited : Side → Option Nat :=
  fun _ => none

/-- An end that would not get further if it were polled. -/
def Waits (capacity : Side → Option Nat) (s : Pair) (side : Side) : Prop :=
  (s.ends side).place ≠ .finished ∧ (s.polled capacity side).place = (s.ends side).place

section Waiting

variable {scripts : Side → Script} {s : Pair} {side : Side}

/-- Where there is room for everything, an end rests for want of a frame. -/
theorem exists_starves_of_rests (hrests : s.Rests unlimited side)
    (hplace : (s.ends side).place ≠ .finished) : ∃ round, s.Starves side round := by
  unfold Rests at hrests
  generalize hp : (s.ends side).place = place at hrests hplace
  match place, hrests with
  | .waiting round .flushing, ⟨_, count, hcapacity, _⟩ => cases hcapacity
  | .waiting round .receiving, ⟨_, hunread⟩ => exact ⟨round, hp, hunread⟩
  | .finished, _ => exact absurd rfl hplace

/-- Where there is room for everything, an end waits for want of a frame. -/
theorem Sound.exists_starves_of_waits
    (hmeets : ∀ side, (scripts side).Meets (scripts side.other)) (h : s.Sound scripts)
    (hwaits : s.Waits unlimited side) : ∃ round, s.Starves side round := by
  obtain ⟨hplace, hsame⟩ := hwaits
  obtain ⟨arrived, harrived, hgoes⟩ := h.goes hmeets unlimited side
  have hplaces : ((s.poll unlimited side).ends side).place = (s.ends side).place := by
    rw [ends_poll_self, hsame]
  obtain ⟨round, hplace', unread, htidy, hcut⟩ :=
    exists_starves_of_rests (h.rests_poll hmeets unlimited side) (hplaces ▸ hplace)
  rw [hplaces] at hplace'
  rw [ends_poll_self] at htidy
  -- A poll takes nothing if the end stays in its place, so that the same bytes are unread.
  obtain ⟨arrived', hstands', harrived'⟩ := h.exists_arrived side
  obtain rfl := List.append_cancel_right (harrived'.trans harrived.symm)
  obtain ⟨before, htidy', hbefore⟩ := hstands'.standing.exists_unread
  obtain ⟨behind, htidy'', hbehind⟩ := hgoes.stands.standing.exists_unread
  rw [hgoes.script, End.script_happen, hsame, ← hbefore] at hbehind
  obtain rfl := List.append_cancel_left hbehind
  obtain rfl : behind = unread := htidy''.unread_eq.symm.trans htidy.unread_eq
  exact ⟨round, hplace', behind, htidy', hcut⟩

/-- An end that has taken all it can would not get further if it were polled. -/
theorem Sound.waits_of_starves (h : s.Sound scripts) {round : Nat}
    (hstarves : s.Starves side round) (capacity : Side → Option Nat) : s.Waits capacity side := by
  obtain ⟨hplace, unread, htidy, hcut⟩ := hstarves
  obtain ⟨arrived, hstands, -⟩ := h.exists_arrived side
  refine ⟨hplace ▸ Place.noConfusion, ?_⟩
  have hsame := End.place_go_of_short
    (e := (s.ends side).happen (.accept (s.acceptance capacity side)))
    ((End.place_happen ..).trans hplace) (End.link_happen .. ▸ htidy) hcut
    (End.link_happen .. ▸ hstands.standing.ended)
  rw [polled, hsame, End.place_happen]

/-- An end that is finished stays so. -/
theorem finished_act {capacity : Side → Option Nat} (a : Act)
    (hplace : (s.ends side).place = .finished) :
    ((s.act capacity a).ends side).place = .finished := by
  cases a with
  | poll x =>
    show ((s.poll capacity x).ends side).place = .finished
    by_cases hx : side = x
    · subst hx
      rw [ends_poll_self, polled, End.go_of_finished (by rw [End.place_happen, hplace]),
        End.place_happen, hplace]
    · rw [ends_poll_of_ne hx, hplace]
  | deliver x count =>
    show ((s.deliver x count).ends side).place = .finished
    by_cases hx : side = x
    · subst hx
      rw [ends_deliver_self, End.place_happen, hplace]
    · rw [ends_deliver_of_ne hx, hplace]

theorem finished_after {capacity : Side → Option Nat} {schedule : Nat → Act} {n m : Nat}
    (hle : n ≤ m) (hplace : ((s.after capacity schedule n).ends side).place = .finished) :
    ((s.after capacity schedule m).ends side).place = .finished := by
  induction hle with
  | refl => exact hplace
  | step _ ih =>
    rw [after_succ]
    exact finished_act _ ih

end Waiting

/-! ## Agreement -/

/-- An end that waits, with nothing on its way to it. -/
def Stuck (capacity : Side → Option Nat) (s : Pair) (side : Side) : Prop :=
  s.Waits capacity side ∧ s.transit side = []

theorem meets_of_near {scripts : Side → Script} (h : (scripts .near).Meets (scripts .far))
    (side : Side) : (scripts side).Meets (scripts side.other) := by
  cases side with
  | near => exact h
  | far => exact h.symm

/-- An end that is finished has taken all payloads of the other one, each in a frame. -/
theorem Sound.fits_of_finished {scripts : Side → Script} {s : Pair} {side : Side}
    (hmeets : ∀ side, (scripts side).Meets (scripts side.other)) (h : s.Sound scripts)
    (hplace : (s.ends side).place = .finished) :
    ∀ q ∈ (scripts side.other).payloads, Fits q := by
  obtain ⟨arrived, hstands, -⟩ := h.exists_arrived side
  have hfits := hstands.standing.fits
  rw [h.script, hplace] at hfits
  change ∀ q ∈ (scripts side.other).payloads.take (scripts side).payloads.length, Fits q at hfits
  rwa [← (hmeets side).length_eq, List.take_length] at hfits

/-- Two ends at rest are finished or stuck. -/
theorem Sound.stuck_of_atRest {scripts : Side → Script} {s : Pair} {side : Side}
    (h : s.Sound scripts) (hrest : s.AtRest unlimited)
    (hplace : (s.ends side).place ≠ .finished) : s.Stuck unlimited side := by
  obtain ⟨hrests, htransit⟩ := hrest side
  obtain ⟨round, hstarves⟩ := exists_starves_of_rests hrests hplace
  exact ⟨h.waits_of_starves hstarves unlimited, htransit⟩

section Agreement

variable {scripts : Side → Script} {side : Side} {schedule : Nat → Act} {s : Pair}
  (hmeets : ∀ side, (scripts side).Meets (scripts side.other))

include hmeets

/-- What fits its frames is not waited for in vain. -/
theorem Sound.not_stuck_of_fits (hfits : ∀ q ∈ (scripts side.other).payloads, Fits q)
    (h : s.Sound scripts) (hstuck : s.Stuck unlimited side) :
    (s.ends side.other).place ≠ .finished ∧ ¬ s.Stuck unlimited side.other := by
  obtain ⟨hwaits, htransit⟩ := hstuck
  obtain ⟨round, hstarves⟩ := h.exists_starves_of_waits hmeets hwaits
  have hround : round < (scripts side.other).payloads.length :=
    (hmeets side).length_eq ▸ h.round_lt hstarves.1
  have hq := List.getElem?_eq_getElem hround
  have hfits := hfits _ (List.getElem_mem hround)
  refine ⟨fun hplace => ?_, fun ⟨hwaits', htransit'⟩ => ?_⟩
  · exact h.not_starves hmeets hstarves htransit hq hfits (.inl hplace)
  · exact h.not_starves hmeets hstarves htransit hq hfits
      (.inr ⟨htransit', h.exists_starves_of_waits hmeets hwaits'⟩)

theorem exists_finished_of_fits (hfits : ∀ q ∈ (scripts side.other).payloads, Fits q)
    (hfair : Fair schedule) :
    ∃ n, ∀ m, n ≤ m → (((start scripts).after unlimited schedule m).ends side).place =
      .finished := by
  obtain ⟨n, -, hrest⟩ := (sound_start scripts).exists_atRest hmeets hfair unlimited 0
  have hsound := (sound_start scripts).after hmeets unlimited schedule n
  refine ⟨n, fun m hm => finished_after hm (Classical.byContradiction fun hplace => ?_)⟩
  obtain ⟨hother, hstuck⟩ :=
    hsound.not_stuck_of_fits hmeets hfits (hsound.stuck_of_atRest hrest hplace)
  exact hstuck (hsound.stuck_of_atRest hrest hother)

/-- What fits no frame is waited for in vain. -/
theorem exists_stuck_of_not_fits (hfits : ¬ ∀ q ∈ (scripts side.other).payloads, Fits q)
    (hfair : Fair schedule) :
    ∃ n, ((start scripts).after unlimited schedule n).Stuck unlimited side ∧
      ((((start scripts).after unlimited schedule n).ends side.other).place = .finished ∨
        ((start scripts).after unlimited schedule n).Stuck unlimited side.other) := by
  obtain ⟨n, -, hrest⟩ := (sound_start scripts).exists_atRest hmeets hfair unlimited 0
  have hsound := (sound_start scripts).after hmeets unlimited schedule n
  refine ⟨n, hsound.stuck_of_atRest hrest fun hplace =>
    hfits (hsound.fits_of_finished hmeets hplace), ?_⟩
  by_cases hother : (((start scripts).after unlimited schedule n).ends side.other).place =
      .finished
  · exact .inl hother
  · exact .inr (hsound.stuck_of_atRest hrest hother)

end Agreement

/-- Two ends of an exchange agree, in whatever order they take their steps and however the bytes
are cut. What an end comes to, once it is finished, is right: the signatures are found to be the
same or not, and each end hears the other's name. An end never waits for a peer that is finished
or is stuck itself, and every fair schedule finishes it, exactly if the other end's payloads fit
their frames. -/
theorem agreement {scripts : Side → Script} (h : (scripts .near).Meets (scripts .far))
    (side : Side) :
    (∀ acts, (((start scripts).run unlimited acts).ends side).Right (scripts side.other)) ∧
      ((∀ acts, ¬(((start scripts).run unlimited acts).Stuck unlimited side ∧
          ((((start scripts).run unlimited acts).ends side.other).place = .finished ∨
            ((start scripts).run unlimited acts).Stuck unlimited side.other))) ↔
        ∀ q ∈ (scripts side.other).payloads, Fits q) ∧
      ∀ schedule, Fair schedule →
        ((∃ n, ∀ m, n ≤ m →
          (((start scripts).after unlimited schedule m).ends side).place = .finished) ↔
          ∀ q ∈ (scripts side.other).payloads, Fits q) := by
  have hmeets := meets_of_near h
  have hsound : ∀ acts, ((start scripts).run unlimited acts).Sound scripts :=
    fun acts => (sound_start scripts).run hmeets acts
  refine ⟨fun acts => ?_, ⟨fun hnever => ?_, fun hfits acts => ?_⟩,
    fun schedule hfair => ⟨?_, fun hfits => exists_finished_of_fits hmeets hfits hfair⟩⟩
  · obtain ⟨arrived, hstands, -⟩ := (hsound acts).exists_arrived side
    exact hstands.right
  · refine Classical.byContradiction fun hfits => ?_
    obtain ⟨n, hstuck⟩ := exists_stuck_of_not_fits hmeets hfits fair_roundRobin
    exact hnever _ hstuck
  · rintro ⟨hstuck, hother⟩
    obtain ⟨hplace, hnot⟩ := (hsound acts).not_stuck_of_fits hmeets hfits hstuck
    exact hother.elim hplace hnot
  · rintro ⟨n, hfinished⟩
    exact (hsound _).fits_of_finished hmeets (hfinished n (Nat.le_refl n))

/-- Two flows that introduce themselves with these names. -/
def introducing (names : Side → String) (side : Side) : Script :=
  .handshake (names side)

theorem meets_introducing {names : Side → String} (h : ∀ side, names side ≠ "") (side : Side) :
    (introducing names side).Meets (introducing names side.other) :=
  .handshake (h side) (h side.other)

/-- Two flows that are polled in turn come to the end of their handshakes. -/
theorem agreement_alice_bob :
    (introducing (fun | .near => "alice" | .far => "bob") .near).Meets
        (introducing (fun | .near => "alice" | .far => "bob") .far) ∧
      ∃ n, ∀ m, n ≤ m →
        (((start (introducing fun | .near => "alice" | .far => "bob")).after unlimited roundRobin
          m).ends .near).place = .finished := by
  have hmeets : (introducing (fun | .near => "alice" | .far => "bob") .near).Meets
      (introducing (fun | .near => "alice" | .far => "bob") .far) :=
    .handshake (by decide) (by decide)
  obtain ⟨-, -, hfinishes⟩ := agreement hmeets .near
  exact ⟨hmeets, (hfinishes roundRobin fair_roundRobin).2 (by decide)⟩

/-- Names of which one fits no frame. -/
def longNames : Side → String
  | .near => "alice"
  | .far => longText

/-- Two flows of one client, each the far end of the other: their handshakes are given up when
they have to wait, and begun anew. -/
def retryActions : List Session.Action :=
  [.openFlow "ann", .openFlow "bob", .handshake "ann",
    .farEnd "bob" (.arrive (frameBytes signature)), .handshake "bob",
    .farEnd "ann" (.arrive (frameBytes signature ++ frameBytes (Text.Utf8.encode "hub"))),
    .handshake "ann",
    .farEnd "bob" (.arrive (frameBytes signature ++ frameBytes (Text.Utf8.encode "hub"))),
    .handshake "bob"]

/-- A name that fits no frame is not sent, so that the other end waits for it for ever, while its
peer is finished. And a handshake that is begun anew sends the signature once more, which the
other end takes for a name. -/
theorem not_agreement_longText :
    (∀ side, longNames side ≠ "") ∧
      (∀ m, (((start (introducing longNames)).after unlimited roundRobin m).ends .near).place ≠
        .finished) ∧
      (∃ n, ((start (introducing longNames)).after unlimited roundRobin n).Stuck unlimited .near ∧
        (((start (introducing longNames)).after unlimited roundRobin n).ends .far).place =
          .finished) ∧
      (((Session.ofNode (.newClient "hub")).actAll retryActions).peer? "bob").map
        (fun p => p.flow.remoteName) = some (some (Text.Utf8.decodeLossy signature)) := by
  have hnames : ∀ side, longNames side ≠ "" := by
    intro side
    cases side with
    | near => exact by decide
    | far => exact longText_ne_empty
  have hmeets := meets_introducing hnames
  have hlong : ¬ ∀ q ∈ (introducing longNames (.other .near)).payloads, Fits q :=
    fun hfits => not_fits_longText (hfits _ (List.mem_cons_of_mem _ (List.mem_singleton_self _)))
  refine ⟨hnames, fun m hplace => ?_, ?_, rfl⟩
  · have hsound := (sound_start _).after hmeets unlimited roundRobin m
    exact hlong (hsound.fits_of_finished hmeets hplace)
  · obtain ⟨n, hnear, hfar⟩ := exists_stuck_of_not_fits hmeets hlong fair_roundRobin
    refine ⟨n, hnear, hfar.resolve_right fun hstuck => ?_⟩
    have hsound := (sound_start _).after hmeets unlimited roundRobin n
    exact (hsound.not_stuck_of_fits hmeets (by decide) hstuck).2 hnear

end Pair

end Parley.Chat
