import Mathlib.Data.List.Infix
import Parley.Proofs.Chat.Histories

/-!
# Registrations

A route goes by an identifier, and so does the end of a registration. While no identifier is
registered twice at a time, the two live together: each subscriber is given the lines that are
broadcast while its registration is held and its queue open. When subscribers share an
identifier, its route leads to the last of them that registered and ends with the first
registration that is given up.

- `Router.received_of_register`: what a subscriber is given in any history.
- `Router.Apart`: no identifier is registered twice at a time.
- `Router.delivered_of_apart`: what subscribers are given, and what a router tells, then.
-/

namespace Parley.Chat.Router

/-- What looking into a queue comes to that is open. -/
def look (ended : Bool) : List String → Received
  | line :: _ => .line line
  | [] => if ended then .disconnected else .empty

/-- After a history, a subscriber is given these lines in order, once each, and no others. Each
look into its queue finds the first of them that it was not given. Behind the last it finds its
queue ended, or only empty. A queue that was closed can give it no more. -/
structure Delivers (steps : List Step) (number : Nat) (lines : List String) (ended : Bool) :
    Prop where
  prefix_lines : received number steps <+: lines
  next : ((empty.after steps).receive number).1 =
    if .closeQueue number ∈ since number steps then .noQueue
    else look ended (lines.drop (received number steps).length)
  drained : .closeQueue number ∉ since number steps →
    received number (steps ++ List.replicate (lines.length - (received number steps).length)
      (.receive number)) = lines

theorem receive_eq {r : Router} {number : Nat} {id : FlowId} {held : Bool} {lines : List String}
    (hsub : r.subscribers[number]? = some ⟨id, held, some lines⟩) :
    (r.receive number).1 = look (!r.leadsTo number) lines := by
  rw [receive, hsub]
  cases lines with
  | cons line lines => rfl
  | nil => cases hleads : r.leadsTo number <;> simp [look]

/-- Receiving takes one line after the other from a queue. -/
theorem subscriber_receives {r : Router} {number : Nat} {id : FlowId} {held : Bool}
    {lines : List String} (h : r.WellFormed)
    (hsub : r.subscribers[number]? = some ⟨id, held, some lines⟩) (n : Nat) :
    (r.after (List.replicate n (.receive number))).subscribers[number]? =
      some ⟨id, held, some (lines.drop n)⟩ := by
  induction n generalizing r lines with
  | zero => exact hsub
  | succ n ih =>
    have hnext := subscriber_step h hsub (.receive number)
    simp only [nextQueue, if_pos, Option.map_some, ne_eq, reduceCtorEq, not_false_eq_true,
      decide_true, Bool.and_true] at hnext
    rw [List.replicate_succ, ← List.drop_tail]
    exact ih (h.step _) hnext

/-- Steps without lines change nothing about the lines. -/
theorem linesUntil_append {stops : Step → Prop} [DecidablePred stops] {more : List Step}
    (h : ∀ s ∈ more, s.line? = none) (steps : List Step) :
    linesUntil stops (steps ++ more) = linesUntil stops steps := by
  induction steps with
  | nil =>
    have hmore : ∀ s ∈ more.takeWhile fun s => ¬ stops s, s.line? = none :=
      fun s hs => h s (List.takeWhile_subset _ hs)
    exact List.filterMap_eq_nil_iff.2 hmore
  | cons s steps ih => rw [List.cons_append, linesUntil_cons, linesUntil_cons, ih]

section Tracking

variable {before after : List Step} {id : FlowId} {waiting : List String}

namespace Tracked

theorem prefix_linesUntil (h : Tracked before after id waiting) :
    received (registered before).length (before ++ [.register id] ++ after) <+:
      linesUntil (Stops (before ++ [.register id]) id (registered before).length) after :=
  ⟨waiting, h.lines_eq⟩

theorem waiting_eq (h : Tracked before after id waiting) :
    waiting = (linesUntil (Stops (before ++ [.register id]) id (registered before).length)
      after).drop (received (registered before).length
        (before ++ [.register id] ++ after)).length := by
  rw [← h.lines_eq, List.drop_left]

theorem leadsTo_iff (h : Tracked before after id waiting) :
    (empty.after (before ++ [.register id] ++ after)).leadsTo (registered before).length = true ↔
      ¬ ∃ s ∈ after, Ends (before ++ [.register id]) id s := by
  rw [(wellFormed_after _).leadsTo_iff h.subscriber, h.route, not_exists]
  exact forall_congr' fun s => not_and.symm

theorem receive (h : Tracked before after id waiting) :
    ((empty.after (before ++ [.register id] ++ after)).receive (registered before).length).1 =
      if .closeQueue (registered before).length ∈ after then .noQueue
      else look (decide (∃ s ∈ after, Ends (before ++ [.register id]) id s)) waiting := by
  have hleads := h.leadsTo_iff
  obtain ⟨hsub, -, -⟩ := h
  split at hsub
  case isTrue hclosed => rw [if_pos hclosed, Router.receive, hsub]
  case isFalse hopen =>
    rw [if_neg hopen, receive_eq hsub]
    by_cases hends : ∃ s ∈ after, Ends (before ++ [.register id]) id s
    · rw [decide_eq_true hends, Bool.eq_false_iff.2 fun heq => hleads.1 heq hends, Bool.not_false]
    · rw [decide_eq_false hends, hleads.2 hends, Bool.not_true]

/-- What waits in an open queue is received. -/
theorem drained (h : Tracked before after id waiting)
    (hopen : .closeQueue (registered before).length ∉ after) :
    received (registered before).length (before ++ [.register id] ++
        (after ++ List.replicate waiting.length (.receive (registered before).length))) =
      linesUntil (Stops (before ++ [.register id]) id (registered before).length) after := by
  have hsub := h.subscriber
  rw [if_neg hopen] at hsub
  have hdrained := subscriber_receives (wellFormed_after _) hsub waiting.length
  set more := List.replicate waiting.length (Step.receive (registered before).length) with hmore
  obtain ⟨rest, hrest⟩ := exists_tracked before (after ++ more) id
  have hopen' : .closeQueue (registered before).length ∉ after ++ more := by
    simp [hmore, hopen]
  have hnothing : rest = [] := by
    have hsub' := hrest.subscriber
    rw [if_neg hopen', ← List.append_assoc, after_append, hdrained, List.drop_length] at hsub'
    exact (Option.some.inj (Subscriber.mk.inj (Option.some.inj hsub')).2.2).symm
  have hsilent : ∀ s ∈ more, s.line? = none := by simp [hmore, Step.line?]
  rw [← linesUntil_append hsilent, ← hrest.lines_eq, hnothing, List.append_nil]

end Tracked

end Tracking

theorem idOf_after (steps : List Step) (number : Nat) :
    (empty.after steps).idOf number = (registered steps)[number]? := by
  cases hid : (registered steps)[number]? with
  | some id =>
    obtain ⟨before, after, rfl, rfl⟩ := exists_register hid
    obtain ⟨queue, hsub⟩ := exists_subscriber_after before after id
    rw [idOf, List.append_cons, hsub]
    rfl
  | none =>
    rw [List.getElem?_eq_none_iff, ← length_after] at hid
    rw [idOf, List.getElem?_eq_none hid]
    rfl

theorem isOpen_after {steps : List Step} {number : Nat}
    (hnumber : number < (registered steps).length) :
    (empty.after steps).isOpen number = true ↔ .closeQueue number ∉ since number steps := by
  obtain ⟨id, hid⟩ : ∃ id, (registered steps)[number]? = some id :=
    ⟨_, List.getElem?_eq_getElem hnumber⟩
  obtain ⟨before, after, rfl, rfl⟩ := exists_register hid
  obtain ⟨waiting, htracked⟩ := exists_tracked before after id
  rw [isOpen, since_register, List.append_cons, htracked.subscriber]
  by_cases hclosed : .closeQueue (registered before).length ∈ after <;> simp [hclosed]

/-- A subscriber is given the lines that are broadcast until its queue is closed or its route
ends. Its route ends when another subscriber registers under its identifier, or when a
registration under that identifier is given up that was held when it registered. -/
theorem delivers_of_register (before after : List Step) (id : FlowId) :
    Delivers (before ++ .register id :: after) (registered before).length
      (linesUntil (Stops (before ++ [.register id]) id (registered before).length) after)
      (decide (∃ s ∈ after, Ends (before ++ [.register id]) id s)) := by
  obtain ⟨waiting, h⟩ := exists_tracked before after id
  have hsteps : before ++ .register id :: after = before ++ [.register id] ++ after :=
    List.append_cons ..
  have hsince := since_register before after id
  refine ⟨?_, ?_, ?_⟩
  · rw [hsteps]
    exact h.prefix_linesUntil
  · rw [hsince, hsteps, h.receive, h.waiting_eq]
  · intro hopen
    rw [hsince] at hopen
    have hdrained := h.drained hopen
    rwa [h.waiting_eq, List.length_drop, ← List.append_assoc, ← hsteps] at hdrained

/-- A subscriber can hold its registration, with its queue open, and be given no more lines:
the end of another registration under its identifier has ended its route. -/
theorem exists_held_not_delivered :
    Holds [.register 1, .register 1, .unregister 0] 1 1 ∧
      ((empty.after [.register 1, .register 1, .unregister 0]).broadcast "x").1 = 0 ∧
      ((empty.after [.register 1, .register 1, .unregister 0, .broadcast "x"]).receive 1).1 =
        .disconnected :=
  ⟨by decide, rfl, rfl⟩

/-! ## Identifiers that are registered once at a time -/

/-- The registrations that are held, by number. -/
def held (steps : List Step) : List Nat :=
  (List.range (registered steps).length).filter fun number =>
    .unregister number ∉ since number steps

/-- At every time, the registrations that are held go by different identifiers. -/
def Apart (steps : List Step) : Prop :=
  ∀ before ∈ steps.inits, ∀ number ∈ held before, ∀ number' ∈ held before,
    (registered before)[number]? = (registered before)[number']? → number = number'

instance (steps : List Step) : Decidable (Apart steps) :=
  inferInstanceAs (Decidable (∀ before ∈ steps.inits, _))

/-- The lines that are broadcast while a registration is held and the queue open. -/
def heard (number : Nat) (steps : List Step) : List String :=
  linesUntil (fun s => s = .unregister number ∨ s = .closeQueue number) (since number steps)

section Apart

variable {steps before after : List Step} {number number' : Nat} {id : FlowId}

theorem mem_held : number ∈ held steps ↔ ∃ id, Holds steps number id := by
  rw [held, List.mem_filter, List.mem_range, decide_eq_true_iff]
  constructor
  · rintro ⟨hlt, hheld⟩
    exact ⟨_, List.getElem?_eq_getElem hlt, hheld⟩
  · rintro ⟨id, hholds⟩
    exact ⟨hholds.lt, hholds.2⟩

theorem held_nodup (steps : List Step) : (held steps).Nodup :=
  List.nodup_range.filter _

/-- Nobody else holds a registration under the same identifier. -/
theorem Apart.eq_of_holds (h : Apart steps) (hbefore : before <+: steps)
    (hholds : Holds before number id) (hholds' : Holds before number' id) : number = number' :=
  h before ((List.mem_inits _ _).2 hbefore) number (mem_held.2 ⟨id, hholds⟩) number'
    (mem_held.2 ⟨id, hholds'⟩) (hholds.1.trans hholds'.1.symm)

theorem holds_register (before : List Step) (id : FlowId) :
    Holds (before ++ [.register id]) (registered before).length id :=
  holds_concat.2 (.inr ⟨rfl, rfl⟩)

/-- A registration is held until it is given up. -/
theorem Holds.append (h : Holds before number id) (hkept : .unregister number ∉ after) :
    Holds (before ++ after) number id := by
  refine ⟨?_, ?_⟩
  · rw [registered_append, List.getElem?_append_left h.lt, h.1]
  · rw [since_append h.lt, List.mem_append, not_or]
    exact ⟨h.2, hkept⟩

/-- Nothing ends the route of a subscriber before it gives its own registration up. -/
theorem Apart.ends_iff {first rest : List Step} {s : Step}
    (h : Apart (before ++ .register id :: (first ++ s :: rest)))
    (hkept : .unregister (registered before).length ∉ first) :
    Ends (before ++ [.register id]) id s ↔ s = .unregister (registered before).length := by
  have hholds := holds_register before id
  cases s with
  | broadcast | closeQueue | receive => exact iff_of_false not_false nofun
  | unregister number =>
    rw [Step.unregister.injEq]
    constructor
    · intro hother
      refine h.eq_of_holds ?_ hother hholds
      exact ⟨_, (List.append_cons ..).symm⟩
    · rintro rfl
      exact hholds
  | register id' =>
    refine iff_of_false ?_ nofun
    rintro rfl
    have hstill : Holds (before ++ [.register id'] ++ (first ++ [.register id']))
        (registered before).length id' := hholds.append (by simpa using hkept)
    have hagain := holds_register (before ++ [.register id'] ++ first) id'
    rw [List.append_assoc] at hagain
    have hprefix : before ++ [.register id'] ++ (first ++ [.register id']) <+:
        before ++ .register id' :: (first ++ .register id' :: rest) := ⟨rest, by simp⟩
    have hsame := h.eq_of_holds hprefix hstill hagain
    simp [registered, Step.id?] at hsame

theorem linesUntil_congr {stops stops' : Step → Prop} [DecidablePred stops]
    [DecidablePred stops']
    (h : ∀ first s rest, steps = first ++ s :: rest → (∀ x ∈ first, ¬ stops' x) →
      (stops s ↔ stops' s)) :
    linesUntil stops steps = linesUntil stops' steps := by
  induction steps with
  | nil => rfl
  | cons s steps ih =>
    have hs := h [] s steps rfl (List.forall_mem_nil _)
    rw [linesUntil_cons, linesUntil_cons]
    by_cases hstops : stops' s
    · rw [if_pos (hs.2 hstops), if_pos hstops]
    · rw [if_neg (mt hs.1 hstops), if_neg hstops, ih]
      intro first x rest hsteps hfirst
      exact h (s :: first) x rest (by rw [hsteps]; rfl)
        (List.forall_mem_cons.2 ⟨hstops, hfirst⟩)

theorem Apart.exists_ends_iff (h : Apart (before ++ .register id :: after)) :
    (∃ s ∈ after, Ends (before ++ [.register id]) id s) ↔
      .unregister (registered before).length ∈ after := by
  constructor
  · rintro ⟨s, hs, hends⟩
    obtain ⟨first, rest, rfl⟩ := List.append_of_mem hs
    by_cases hkept : .unregister (registered before).length ∈ first
    · exact List.mem_append_left _ hkept
    · rw [(h.ends_iff hkept).1 hends]
      exact List.mem_append_right _ List.mem_cons_self
  · exact fun hgiven => ⟨_, hgiven, holds_register before id⟩

theorem Apart.linesUntil_eq (h : Apart (before ++ .register id :: after)) :
    linesUntil (Stops (before ++ [.register id]) id (registered before).length) after =
      linesUntil (fun s => s = .unregister (registered before).length ∨
        s = .closeQueue (registered before).length) after := by
  refine linesUntil_congr ?_
  rintro first s rest rfl hfirst
  have hkept : .unregister (registered before).length ∉ first :=
    fun hmem => hfirst _ hmem (.inl rfl)
  exact or_congr (h.ends_iff hkept) Iff.rfl

/-- A subscriber that shares its identifier with nobody is given the lines that are broadcast
while its registration is held and its queue open. -/
theorem Apart.delivers (h : Apart steps) (hnumber : number < (registered steps).length) :
    Delivers steps number (heard number steps)
      (decide (.unregister number ∈ since number steps)) := by
  obtain ⟨id, hid⟩ : ∃ id, (registered steps)[number]? = some id :=
    ⟨_, List.getElem?_eq_getElem hnumber⟩
  obtain ⟨before, after, rfl, rfl⟩ := exists_register hid
  have hdelivers := delivers_of_register before after id
  rw [h.linesUntil_eq, decide_eq_decide.2 h.exists_ends_iff] at hdelivers
  simpa only [heard, since_register] using hdelivers

/-- The routes lead to the subscribers whose registrations are held. -/
theorem Apart.mem_routes (h : Apart steps) :
    (id, number) ∈ (empty.after steps).routes ↔ Holds steps number id := by
  have hregistered (hid : (registered steps)[number]? = some id) :
      (id, number) ∈ (empty.after steps).routes ↔ Holds steps number id := by
    obtain ⟨before, after, rfl, rfl⟩ := exists_register hid
    obtain ⟨waiting, htracked⟩ := exists_tracked before after id
    rw [Holds, and_iff_right hid, since_register, ← h.exists_ends_iff, List.append_cons,
      htracked.route, not_exists]
    exact forall_congr' fun s => not_and.symm
  constructor
  · intro hroute
    exact (hregistered ((idOf_after ..).symm.trans ((wellFormed_after _).leads _ hroute))).1 hroute
  · exact fun hholds => (hregistered hholds.1).2 hholds

theorem Apart.numbers_perm (h : Apart steps) :
    ((empty.after steps).routes.map Prod.snd).Perm (held steps) := by
  refine (List.perm_ext_iff_of_nodup (wellFormed_after steps).numbers_nodup
    (held_nodup steps)).2 fun number => ?_
  rw [List.mem_map, mem_held]
  constructor
  · rintro ⟨⟨id, number⟩, hroute, rfl⟩
    exact ⟨id, h.mem_routes.1 hroute⟩
  · rintro ⟨id, hholds⟩
    exact ⟨(id, number), h.mem_routes.2 hholds, rfl⟩

/-- While no identifier is registered twice at a time, each subscriber is given the lines that
are broadcast while its registration is held and its queue open; its queue has ended when its
registration was given up. A line is taken by the queues that are open of those whose
registration is held, and a router counts and knows these registrations. -/
theorem delivered_of_apart (h : Apart steps) :
    (∀ number < (registered steps).length, Delivers steps number (heard number steps)
        (decide (.unregister number ∈ since number steps))) ∧
      (∀ line, ((empty.after steps).broadcast line).1 =
        ((held steps).filter fun number => .closeQueue number ∉ since number steps).length) ∧
      (∀ id, (empty.after steps).contains id = true ↔ ∃ number, Holds steps number id) ∧
      (empty.after steps).size = (held steps).length := by
  refine ⟨fun number => h.delivers, fun line => ?_, fun id => ?_, ?_⟩
  · show ((empty.after steps).routes.filter _).length = _
    have hopen : (held steps).filter (fun number => .closeQueue number ∉ since number steps) =
        (held steps).filter (empty.after steps).isOpen := by
      refine List.filter_congr fun number hmem => ?_
      obtain ⟨id, hholds⟩ := mem_held.1 hmem
      rw [Bool.eq_iff_iff, decide_eq_true_iff, isOpen_after hholds.lt]
    rw [hopen, ← (h.numbers_perm.filter _).length_eq, List.filter_map, List.length_map]
    rfl
  · rw [contains, List.any_eq_true]
    constructor
    · rintro ⟨⟨id', number⟩, hroute, hid⟩
      obtain rfl : id' = id := beq_iff_eq.1 hid
      exact ⟨number, h.mem_routes.1 hroute⟩
    · rintro ⟨number, hholds⟩
      exact ⟨(id, number), h.mem_routes.2 hholds, beq_self_eq_true id⟩
  · rw [size, ← List.length_map Prod.snd, h.numbers_perm.length_eq]

/-- A subscriber registers under an identifier that was given up. -/
theorem delivered_of_reregistered :
    Apart [.register 1, .broadcast "a", .unregister 0, .register 1, .broadcast "b"] ∧
      Delivers [.register 1, .broadcast "a", .unregister 0, .register 1, .broadcast "b"] 0 ["a"]
        true ∧
      Delivers [.register 1, .broadcast "a", .unregister 0, .register 1, .broadcast "b"] 1 ["b"]
        false ∧
      ((empty.after [.register 1, .broadcast "a", .unregister 0, .register 1,
        .broadcast "b"]).broadcast "c").1 = 1 :=
  have hapart : Apart [.register 1, .broadcast "a", .unregister 0, .register 1,
      .broadcast "b"] := by decide
  have h := delivered_of_apart hapart
  ⟨hapart, h.1 0 (by decide), h.1 1 (by decide), h.2.1 "c"⟩

end Apart

end Parley.Chat.Router
