import Mathlib.Logic.Function.Basic
import Parley.Proofs.Chat.Ends

/-!
# Pairs of ends

Two ends are connected by two pipes, one in each direction, which lose nothing and keep the order
of the bytes. A pipe may have a capacity: a writer that finds it full waits until the other end
reads. The ends are polled in any order, and what is in a pipe arrives in pieces of any length.

- `Pair`: two ends, with the bytes on their way.
- `Pair.Act`, `Pair.run`: what happens to a pair.
- `Pair.Sound`: the bytes that belong to the places of both ends.
- `Pair.effort`: what is left to do of an exchange, which no step adds to.
- `Pair.AtRest`: a pair that does not get further.
- `Pair.Sound.exists_atRest`: every fair schedule leads there.
-/

namespace Parley.Chat

open Wire

/-- The two ends of a connection. -/
inductive Side where
  | near
  | far
  deriving DecidableEq

namespace Side

def other : Side → Side
  | .near => .far
  | .far => .near

@[simp] theorem other_other (side : Side) : side.other.other = side := by
  cases side <;> rfl

theorem other_ne (side : Side) : side.other ≠ side := by
  cases side <;> exact fun h => nomatch h

theorem eq_or_eq_other (side x : Side) : x = side ∨ x = side.other := by
  cases side <;> cases x <;> simp [other]

end Side

/-- Two ends, with the bytes that are on their way to each of them. -/
structure Pair where
  ends : Side → End
  transit : Side → Bytes

namespace Pair

/-- Something that happens to a pair. -/
inductive Act where
  | poll (side : Side)
  /-- The next bytes arrive at an end, as one chunk. -/
  | deliver (side : Side) (count : Nat)

/-- Two ends that have not begun. -/
def start (scripts : Side → Script) : Pair where
  ends side := .start (scripts side)
  transit _ := []

/-- All bytes that an end has written. -/
def written (s : Pair) (side : Side) : Bytes :=
  (s.ends side).link.stream.written

/-- How much is in the pipe that leads to an end. What has arrived and was not read is still in
it. -/
def filled (s : Pair) (side : Side) : Nat :=
  (s.transit side).length + (s.ends side).link.stream.arrived

/-- How much an end may write. -/
def acceptance (capacity : Side → Option Nat) (s : Pair) (side : Side) : Acceptance :=
  match capacity side.other with
  | none => .everything
  | some count => .upTo (count - s.filled side.other) .block

/-- How much an end will then have written at most. -/
def limit (capacity : Side → Option Nat) (s : Pair) (side : Side) : Option Nat :=
  (capacity side.other).map fun count => (s.written side).length + (count - s.filled side.other)

/-- An end once it is polled. -/
def polled (capacity : Side → Option Nat) (s : Pair) (side : Side) : End :=
  ((s.ends side).happen (.accept (s.acceptance capacity side))).go

/-- One end is polled. What it writes is on its way to the other one. The capacity is that of the
pipe which leads to an end. -/
def poll (capacity : Side → Option Nat) (side : Side) (s : Pair) : Pair where
  ends := Function.update s.ends side (s.polled capacity side)
  transit := Function.update s.transit side.other
    (s.transit side.other ++
      (s.polled capacity side).link.stream.written.drop (s.written side).length)

def deliver (side : Side) (count : Nat) (s : Pair) : Pair where
  ends := Function.update s.ends side
    ((s.ends side).happen (.arrive ((s.transit side).take count)))
  transit := Function.update s.transit side ((s.transit side).drop count)

def act (capacity : Side → Option Nat) (s : Pair) : Act → Pair
  | .poll side => s.poll capacity side
  | .deliver side count => s.deliver side count

def run (capacity : Side → Option Nat) (s : Pair) (acts : List Act) : Pair :=
  acts.foldl (act capacity) s

section Steps

variable {capacity : Side → Option Nat} {s : Pair} {side x : Side} {count : Nat}

@[simp] theorem ends_poll_self :
    (s.poll capacity side).ends side = s.polled capacity side :=
  Function.update_self ..

theorem ends_poll_of_ne (h : x ≠ side) : (s.poll capacity side).ends x = s.ends x :=
  Function.update_of_ne h ..

theorem transit_poll_other :
    (s.poll capacity side).transit side.other =
      s.transit side.other ++
        (s.polled capacity side).link.stream.written.drop (s.written side).length :=
  Function.update_self ..

theorem transit_poll_self : (s.poll capacity side).transit side = s.transit side :=
  Function.update_of_ne side.other_ne.symm ..

@[simp] theorem ends_deliver_self :
    (s.deliver side count).ends side =
      (s.ends side).happen (.arrive ((s.transit side).take count)) :=
  Function.update_self ..

theorem ends_deliver_of_ne (h : x ≠ side) : (s.deliver side count).ends x = s.ends x :=
  Function.update_of_ne h ..

@[simp] theorem transit_deliver_self :
    (s.deliver side count).transit side = (s.transit side).drop count :=
  Function.update_self ..

theorem transit_deliver_of_ne (h : x ≠ side) : (s.deliver side count).transit x = s.transit x :=
  Function.update_of_ne h ..

theorem written_poll_self :
    (s.poll capacity side).written side = (s.polled capacity side).link.stream.written := by
  rw [written, ends_poll_self]

theorem written_poll_of_ne (h : x ≠ side) : (s.poll capacity side).written x = s.written x := by
  rw [written, written, ends_poll_of_ne h]

theorem written_deliver : (s.deliver side count).written x = s.written x := by
  unfold written
  by_cases h : x = side
  · subst h
    rw [ends_deliver_self, End.link_happen]
    rfl
  · rw [ends_deliver_of_ne h]

end Steps

/-! ## Soundness -/

/-- Both ends stand where the bytes belong that have arrived at them, and what has not arrived is
on its way. -/
structure Sound (scripts : Side → Script) (s : Pair) : Prop where
  script : ∀ side, (s.ends side).script = scripts side
  exists_arrived : ∀ side, ∃ arrived, (s.ends side).Stands (scripts side.other) arrived ∧
    arrived ++ s.transit side = s.written side.other

section Sound

variable {scripts : Side → Script} {capacity : Side → Option Nat} {s : Pair}

/-- An end has written the first of the bytes that it sends. -/
theorem Sound.written_prefix_transcript (h : s.Sound scripts) (side : Side) :
    s.written side <+: transcript (scripts side).payloads := by
  obtain ⟨arrived, hstands, -⟩ := h.exists_arrived side
  have hout := hstands.standing.out
  rw [h.script] at hout
  have hprefix : s.written side <+: (s.ends side).link.out := List.prefix_append ..
  rw [hout] at hprefix
  refine hprefix.trans ?_
  rw [← transcript_take_append_drop (scripts side).payloads]
  exact List.prefix_append ..

theorem sound_start (scripts : Side → Script) : (start scripts).Sound scripts where
  script side := by
    show (End.start (scripts side)).script = _
    cases scripts side <;> rfl
  exists_arrived side := by
    refine ⟨[], End.stands_start, ?_⟩
    show [] = (End.start (scripts side.other)).link.stream.written
    cases scripts side.other <;> rfl

theorem allows_limit (capacity : Side → Option Nat) (s : Pair) (side : Side) :
    ((s.ends side).happen (.accept (s.acceptance capacity side))).link.stream.Allows
      (s.limit capacity side) := by
  rw [End.link_happen]
  unfold limit acceptance
  cases capacity side.other with
  | none => rfl
  | some count => exact ⟨_, rfl, rfl⟩

variable (hmeets : ∀ side, (scripts side).Meets (scripts side.other))

include hmeets

/-- What a poll comes to. -/
theorem Sound.goes (h : s.Sound scripts) (capacity : Side → Option Nat) (side : Side) :
    ∃ arrived, arrived ++ s.transit side = s.written side.other ∧
      End.Goes (s.limit capacity side) (scripts side.other) arrived
        ((s.ends side).happen (.accept (s.acceptance capacity side)))
        (s.polled capacity side) := by
  obtain ⟨arrived, hstands, harrived⟩ := h.exists_arrived side
  have hprefix : arrived <+: transcript (scripts side.other).payloads :=
    List.IsPrefix.trans ⟨_, harrived⟩ (h.written_prefix_transcript side.other)
  have hscript : ((s.ends side).happen (.accept (s.acceptance capacity side))).script.Meets
      (scripts side.other) := by
    rw [End.script_happen, h.script]
    exact hmeets side
  exact ⟨arrived, harrived,
    End.go_spec hscript (hstands.accept _) (allows_limit capacity s side) hprefix⟩

/-- What was written stays written. -/
theorem Sound.written_polled (h : s.Sound scripts) (capacity : Side → Option Nat) (side : Side) :
    s.written side <+: (s.polled capacity side).link.stream.written := by
  obtain ⟨arrived, -, hgoes⟩ := h.goes hmeets capacity side
  have hwritten := hgoes.advances.written
  rw [End.link_happen] at hwritten
  exact hwritten

theorem Sound.poll (h : s.Sound scripts) (capacity : Side → Option Nat) (side : Side) :
    (s.poll capacity side).Sound scripts := by
  obtain ⟨arrived, harrived, hgoes⟩ := h.goes hmeets capacity side
  refine ⟨fun x => ?_, fun x => ?_⟩
  · by_cases hx : x = side
    · subst hx
      rw [ends_poll_self, hgoes.script, End.script_happen]
      exact h.script x
    · rw [ends_poll_of_ne hx]
      exact h.script x
  · rcases side.eq_or_eq_other x with rfl | rfl
    · refine ⟨arrived, ?_, ?_⟩
      · rw [ends_poll_self]
        exact hgoes.stands
      · rw [transit_poll_self, harrived, written_poll_of_ne x.other_ne]
    · obtain ⟨arrived', hstands', harrived'⟩ := h.exists_arrived side.other
      refine ⟨arrived', ?_, ?_⟩
      · rw [ends_poll_of_ne side.other_ne]
        exact hstands'
      · -- What the end has written in this poll goes behind what it wrote before.
        obtain ⟨more, hmore⟩ := h.written_polled hmeets capacity side
        rw [Side.other_other] at harrived' ⊢
        rw [transit_poll_other, ← List.append_assoc, harrived', written_poll_self, ← hmore]
        exact congrArg _ (List.drop_left ..)

omit hmeets in
theorem Sound.deliver (h : s.Sound scripts) (side : Side) (count : Nat) :
    (s.deliver side count).Sound scripts := by
  refine ⟨fun x => ?_, fun x => ?_⟩
  · by_cases hx : x = side
    · subst hx
      rw [ends_deliver_self, End.script_happen]
      exact h.script x
    · rw [ends_deliver_of_ne hx]
      exact h.script x
  · obtain ⟨arrived, hstands, harrived⟩ := h.exists_arrived x
    by_cases hx : x = side
    · subst hx
      refine ⟨arrived ++ (s.transit x).take count, ?_, ?_⟩
      · rw [ends_deliver_self]
        exact hstands.arrive _
      · rw [transit_deliver_self, written_deliver, List.append_assoc, List.take_append_drop,
          harrived]
    · refine ⟨arrived, ?_, ?_⟩
      · rw [ends_deliver_of_ne hx]
        exact hstands
      · rw [transit_deliver_of_ne hx, written_deliver, harrived]

theorem Sound.run (acts : List Act) (h : s.Sound scripts) :
    (s.run capacity acts).Sound scripts := by
  induction acts generalizing s with
  | nil => exact h
  | cons a acts ih =>
    cases a with
    | poll side => exact ih (h.poll hmeets capacity side)
    | deliver side count => exact ih (h.deliver side count)

end Sound

/-! ## Effort -/

/-- What is left to do of the bytes that an end writes, and of those on their way to it. A byte
costs less once it is written, once it has arrived, and nothing once it is read. -/
def work (scripts : Side → Script) (s : Pair) (side : Side) : Nat :=
  3 * ((transcript (scripts side).payloads).length - (s.written side).length) +
    2 * (s.transit side).length + (s.ends side).link.stream.arrived

/-- What is left to do of an exchange. -/
def effort (scripts : Side → Script) (s : Pair) : Nat :=
  s.work scripts .near + s.work scripts .far

theorem effort_eq (scripts : Side → Script) (s : Pair) (side : Side) :
    s.effort scripts = s.work scripts side + s.work scripts side.other := by
  cases side with
  | near => rfl
  | far => exact Nat.add_comm ..

section Effort

variable {scripts : Side → Script} {capacity : Side → Option Nat} {s : Pair} {side : Side}

/-- What arrives costs less than what is on its way. -/
theorem effort_deliver (scripts : Side → Script) (s : Pair) (side : Side) (count : Nat) :
    (s.deliver side count).effort scripts + ((s.transit side).take count).length =
      s.effort scripts := by
  have hself : (s.deliver side count).work scripts side + ((s.transit side).take count).length =
      s.work scripts side := by
    have hlength := congrArg List.length (List.take_append_drop count (s.transit side))
    rw [List.length_append] at hlength
    have harrived : ((s.ends side).happen
        (.arrive ((s.transit side).take count))).link.stream.arrived =
        (s.ends side).link.stream.arrived + ((s.transit side).take count).length := by
      rw [End.link_happen]
      exact Stream.arrived_arrive ..
    rw [work, work, written_deliver, transit_deliver_self, ends_deliver_self, harrived]
    omega
  have hother : (s.deliver side count).work scripts side.other = s.work scripts side.other := by
    rw [work, work, written_deliver, transit_deliver_of_ne side.other_ne,
      ends_deliver_of_ne side.other_ne]
  rw [effort_eq _ _ side, effort_eq _ _ side, hother]
  omega

/-- What is written or read costs less. -/
theorem Sound.effort_poll (hmeets : ∀ side, (scripts side).Meets (scripts side.other))
    (h : s.Sound scripts) (capacity : Side → Option Nat) (side : Side) :
    (s.poll capacity side).effort scripts +
        ((s.polled capacity side).link.stream.written.length - (s.written side).length) +
        ((s.ends side).link.stream.arrived - (s.polled capacity side).link.stream.arrived) =
      s.effort scripts := by
  have hwritten := (h.written_polled hmeets capacity side).length_le
  have hall := ((h.poll hmeets capacity side).written_prefix_transcript side).length_le
  have harrived : (s.polled capacity side).link.stream.arrived ≤
      (s.ends side).link.stream.arrived := by
    obtain ⟨arrived, -, hgoes⟩ := h.goes hmeets capacity side
    have hsuffix := Stream.arrived_le_of_suffix hgoes.advances.arrivals
    rw [End.link_happen] at hsuffix
    exact hsuffix
  rw [written_poll_self] at hall
  rw [effort_eq _ _ side, effort_eq _ _ side, work, work, work, work, written_poll_self,
    written_poll_of_ne side.other_ne, ends_poll_self, ends_poll_of_ne side.other_ne,
    transit_poll_self, transit_poll_other, List.length_append, List.length_drop]
  omega

theorem Sound.effort_act (hmeets : ∀ side, (scripts side).Meets (scripts side.other))
    (h : s.Sound scripts) (capacity : Side → Option Nat) (a : Act) :
    (s.act capacity a).effort scripts ≤ s.effort scripts := by
  cases a with
  | poll side =>
    have hless := h.effort_poll hmeets capacity side
    show (s.poll capacity side).effort scripts ≤ _
    omega
  | deliver side count =>
    have hless := s.effort_deliver scripts side count
    show (s.deliver side count).effort scripts ≤ _
    omega

end Effort

/-! ## Rest -/

/-- Whether there is no room in the pipe that leads to an end. -/
def IsFull (capacity : Side → Option Nat) (s : Pair) (side : Side) : Prop :=
  ∃ count, capacity side = some count ∧ count ≤ s.filled side

/-- Whether an end was polled and does not get further. -/
def Rests (capacity : Side → Option Nat) (s : Pair) (side : Side) : Prop :=
  Resting (s.IsFull capacity side.other) (s.ends side).link (s.ends side).place

/-- A pair of which no end gets further, with nothing on its way. -/
def AtRest (capacity : Side → Option Nat) (s : Pair) : Prop :=
  ∀ side, s.Rests capacity side ∧ s.transit side = []

section Rest

variable {scripts : Side → Script} {capacity : Side → Option Nat} {s : Pair} {side : Side}

theorem Sound.rests_poll (hmeets : ∀ side, (scripts side).Meets (scripts side.other))
    (h : s.Sound scripts) (capacity : Side → Option Nat) (side : Side) :
    (s.poll capacity side).Rests capacity side := by
  obtain ⟨arrived, -, hgoes⟩ := h.goes hmeets capacity side
  have hwritten := (h.written_polled hmeets capacity side).length_le
  rw [Rests, ends_poll_self]
  refine hgoes.resting.mono fun hlimit => ?_
  -- The end has written all that there was room for.
  obtain ⟨count, hcapacity, hcount⟩ := Option.map_eq_some_iff.1 hlimit
  refine ⟨count, hcapacity, ?_⟩
  rw [filled] at hcount
  rw [filled, transit_poll_other, ends_poll_of_ne side.other_ne, List.length_append,
    List.length_drop]
  omega

theorem deliver_of_take_nil {count : Nat} (h : (s.transit side).take count = []) :
    s.deliver side count = s := by
  have hdrop : (s.transit side).drop count = s.transit side := by
    have happend := List.take_append_drop count (s.transit side)
    rwa [h, List.nil_append] at happend
  rw [deliver, h, hdrop, End.happen_arrive_nil, Function.update_eq_self, Function.update_eq_self]

theorem take_nil_of_effort {count : Nat}
    (heffort : (s.deliver side count).effort scripts = s.effort scripts) :
    (s.transit side).take count = [] := by
  have hless := s.effort_deliver scripts side count
  exact List.length_eq_zero_iff.1 (by omega)

/-- An end that rests goes on resting as long as nothing gets done. -/
theorem Sound.rests_act (hmeets : ∀ side, (scripts side).Meets (scripts side.other))
    (h : s.Sound scripts) {a : Act}
    (heffort : (s.act capacity a).effort scripts = s.effort scripts)
    (hrests : s.Rests capacity side) : (s.act capacity a).Rests capacity side := by
  cases a with
  | poll x =>
    rcases x.eq_or_eq_other side with rfl | rfl
    · exact h.rests_poll hmeets capacity side
    · have hless := h.effort_poll hmeets capacity x
      change (s.poll capacity x).effort scripts = _ at heffort
      show (s.poll capacity x).Rests capacity x.other
      rw [Rests, ends_poll_of_ne x.other_ne]
      refine hrests.mono ?_
      rintro ⟨count, hcapacity, hcount⟩
      refine ⟨count, hcapacity, ?_⟩
      rw [Side.other_other, filled] at hcount ⊢
      rw [transit_poll_self, ends_poll_self]
      omega
  | deliver x count =>
    show (s.deliver x count).Rests capacity side
    rwa [deliver_of_take_nil (take_nil_of_effort heffort)]

/-- Nothing gets on its way as long as nothing gets done. -/
theorem Sound.transit_act (hmeets : ∀ side, (scripts side).Meets (scripts side.other))
    (h : s.Sound scripts) {a : Act}
    (heffort : (s.act capacity a).effort scripts = s.effort scripts)
    (htransit : s.transit side = []) : (s.act capacity a).transit side = [] := by
  cases a with
  | poll x =>
    show (s.poll capacity x).transit side = []
    rcases x.eq_or_eq_other side with rfl | rfl
    · rw [transit_poll_self, htransit]
    · have hless := h.effort_poll hmeets capacity x
      change (s.poll capacity x).effort scripts = _ at heffort
      rw [transit_poll_other, htransit, List.nil_append]
      exact List.drop_eq_nil_iff.2 (by omega)
  | deliver x count =>
    show (s.deliver x count).transit side = []
    rw [deliver_of_take_nil (take_nil_of_effort heffort), htransit]

end Rest

/-! ## Schedules -/

/-- A schedule that polls both ends again and again, and delivers to both of them again and
again. -/
structure Fair (schedule : Nat → Act) : Prop where
  polls : ∀ side n, ∃ m, n ≤ m ∧ schedule m = .poll side
  delivers : ∀ side n, ∃ m, n ≤ m ∧ ∃ count, schedule m = .deliver side (count + 1)

/-- What happens in each of four steps. -/
def turn : Nat → Act
  | 0 => .poll .near
  | 1 => .poll .far
  | 2 => .deliver .near 1
  | _ => .deliver .far 1

/-- Both ends are polled, and then a byte is delivered to each, over and over. -/
def roundRobin (n : Nat) : Act :=
  turn (n % 4)

theorem fair_roundRobin : Fair roundRobin where
  polls side n := by
    cases side with
    | near => exact ⟨4 * n, by omega, congrArg turn (show 4 * n % 4 = 0 by omega)⟩
    | far => exact ⟨4 * n + 1, by omega, congrArg turn (show (4 * n + 1) % 4 = 1 by omega)⟩
  delivers side n := by
    cases side with
    | near => exact ⟨4 * n + 2, by omega, 0, congrArg turn (show (4 * n + 2) % 4 = 2 by omega)⟩
    | far => exact ⟨4 * n + 3, by omega, 0, congrArg turn (show (4 * n + 3) % 4 = 3 by omega)⟩

/-- A pair after so many steps of a schedule. -/
def after (capacity : Side → Option Nat) (schedule : Nat → Act) (s : Pair) (n : Nat) : Pair :=
  s.run capacity ((List.range n).map schedule)

/-- Nothing gets done any more from a step on. -/
def Stalls (scripts : Side → Script) (capacity : Side → Option Nat) (schedule : Nat → Act)
    (s : Pair) (n : Nat) : Prop :=
  ∀ m, n ≤ m → (s.after capacity schedule (m + 1)).effort scripts =
    (s.after capacity schedule m).effort scripts

section Schedule

variable {scripts : Side → Script} {capacity : Side → Option Nat} {schedule : Nat → Act} {s : Pair}
  {side : Side} {n : Nat}

theorem after_succ (n : Nat) :
    s.after capacity schedule (n + 1) =
      (s.after capacity schedule n).act capacity (schedule n) := by
  rw [after, run, List.range_succ, List.map_append, List.foldl_append]
  rfl

variable (hmeets : ∀ side, (scripts side).Meets (scripts side.other)) (h : s.Sound scripts)

include hmeets h

theorem Sound.after (capacity : Side → Option Nat) (schedule : Nat → Act) (n : Nat) :
    (s.after capacity schedule n).Sound scripts :=
  h.run hmeets _

theorem Sound.effort_after_succ (capacity : Side → Option Nat) (schedule : Nat → Act) (n : Nat) :
    (s.after capacity schedule (n + 1)).effort scripts ≤
      (s.after capacity schedule n).effort scripts := by
  rw [after_succ]
  exact (h.after hmeets capacity schedule n).effort_act hmeets capacity _

/-- An end that was polled rests for good once nothing gets done. -/
theorem Sound.rests_of_stalls (hstalls : s.Stalls scripts capacity schedule n) {k : Nat}
    (hk : n ≤ k) (hpoll : schedule k = .poll side) {m : Nat} (hm : k < m) :
    (s.after capacity schedule m).Rests capacity side := by
  induction hm with
  | refl =>
    rw [after_succ, hpoll]
    exact (h.after hmeets capacity schedule k).rests_poll hmeets capacity side
  | @step m hm ih =>
    have heffort := hstalls m (Nat.le_trans hk (Nat.le_of_lt hm))
    rw [after_succ] at heffort ⊢
    exact (h.after hmeets capacity schedule m).rests_act hmeets heffort ih

/-- Nothing is on its way to an end that was delivered to, once nothing gets done. -/
theorem Sound.transit_of_stalls (hstalls : s.Stalls scripts capacity schedule n) {k count : Nat}
    (hk : n ≤ k) (hdeliver : schedule k = .deliver side (count + 1)) {m : Nat} (hm : k < m) :
    (s.after capacity schedule m).transit side = [] := by
  have hstep : ∀ m, n ≤ m → (s.after capacity schedule m).transit side = [] →
      (s.after capacity schedule (m + 1)).transit side = [] := by
    intro m hm htransit
    have heffort := hstalls m hm
    rw [after_succ] at heffort ⊢
    exact (h.after hmeets capacity schedule m).transit_act hmeets heffort htransit
  induction hm with
  | refl =>
    refine hstep k hk ?_
    have heffort := hstalls k hk
    rw [after_succ, hdeliver] at heffort
    cases htransit : (s.after capacity schedule k).transit side with
    | nil => rfl
    | cons b bytes =>
      have htake := take_nil_of_effort heffort
      rw [htransit] at htake
      cases htake
  | @step m hm ih => exact hstep m (Nat.le_trans hk (Nat.le_of_lt hm)) ih

/-- A pair at which nothing gets done comes to rest. -/
theorem Sound.exists_atRest_of_stalls (hfair : Fair schedule)
    (hstalls : s.Stalls scripts capacity schedule n) :
    ∃ m, n ≤ m ∧ (s.after capacity schedule m).AtRest capacity := by
  have hside : ∀ side, ∃ k, n ≤ k ∧ ∀ m, k ≤ m →
      (s.after capacity schedule m).Rests capacity side ∧
        (s.after capacity schedule m).transit side = [] := by
    intro side
    obtain ⟨i, hi, hpoll⟩ := hfair.polls side n
    obtain ⟨j, hj, count, hdeliver⟩ := hfair.delivers side n
    exact ⟨i + j + 1, by omega, fun m hm =>
      ⟨h.rests_of_stalls hmeets hstalls hi hpoll (by omega),
        h.transit_of_stalls hmeets hstalls hj hdeliver (by omega)⟩⟩
  obtain ⟨i, hi, hnear⟩ := hside .near
  obtain ⟨j, hj, hfar⟩ := hside .far
  refine ⟨i + j, by omega, fun side => ?_⟩
  cases side with
  | near => exact hnear _ (by omega)
  | far => exact hfar _ (by omega)

/-- A fair schedule leads to rest: what there is left to do gets less until then. -/
theorem Sound.exists_atRest (hfair : Fair schedule) (capacity : Side → Option Nat) (n : Nat) :
    ∃ m, n ≤ m ∧ (s.after capacity schedule m).AtRest capacity := by
  induction heffort : (s.after capacity schedule n).effort scripts using Nat.strongRecOn
    generalizing n with
  | ind effort ih =>
    by_cases hstalls : s.Stalls scripts capacity schedule n
    case pos => exact h.exists_atRest_of_stalls hmeets hfair hstalls
    case neg =>
      obtain ⟨m, hm, hstep⟩ : ∃ m, n ≤ m ∧ (s.after capacity schedule (m + 1)).effort scripts ≠
          (s.after capacity schedule m).effort scripts := by
        simpa only [Stalls, not_forall, exists_prop] using hstalls
      have hless := Nat.lt_of_le_of_ne (h.effort_after_succ hmeets capacity schedule m) hstep
      have hbefore : (s.after capacity schedule m).effort scripts ≤ effort := by
        clear hstep hless
        induction hm with
        | refl => exact Nat.le_of_eq heffort
        | step _ ih' => exact Nat.le_trans (h.effort_after_succ hmeets capacity schedule _) ih'
      obtain ⟨m', hm', hrest⟩ := ih _ (Nat.lt_of_lt_of_le hless hbefore) (m + 1) rfl
      exact ⟨m', by omega, hrest⟩

end Schedule

end Pair

end Parley.Chat
