import Mathlib.Data.List.Induction
import Parley.Proofs.Chat.Routing

/-!
# Histories of a router

Subscribers come and go in any order: each of them gives its registration up and closes its
queue whenever it likes, also one without the other, and several may register under one
identifier. What a history says of a subscriber is told by its steps alone, without a router.

- `Router.Step`, `Router.Answer`, `Router.after`: steps with a router.
- `Router.Holds`: whose registration is held after a history.
- `Router.Ends`: the steps that end the route of a subscriber.
- `Router.received`: the lines that a subscriber was given.
- `Router.subscriber_step`, `Router.route_step`: all that a step does to one subscriber.
- `Router.exists_tracked`: a router has of each subscriber what the history says.
-/

namespace Parley.Chat.Router

/-- What can be done with a router. Subscribers are given by number. -/
inductive Step where
  | register (id : FlowId)
  | broadcast (line : String)
  /-- A registration is given up. -/
  | unregister (number : Nat)
  | closeQueue (number : Nat)
  | receive (number : Nat)
  deriving DecidableEq

/-- What a step answers. -/
inductive Answer where
  | registered (number : Nat)
  | count (value : Nat)
  | received (what : Received)
  | nothing

/-- Does one step. -/
def step (r : Router) : Step → Answer × Router
  | .register id => (.registered (r.register id).1, (r.register id).2)
  | .broadcast line => (.count (r.broadcast line).1, (r.broadcast line).2)
  | .unregister number => (.nothing, r.unregister number)
  | .closeQueue number => (.nothing, r.closeQueue number)
  | .receive number => (.received (r.receive number).1, (r.receive number).2)

/-- The router after steps, one after the other. -/
def after (r : Router) (steps : List Step) : Router :=
  steps.foldl (fun r s => (r.step s).2) r

theorem after_append (r : Router) (steps more : List Step) :
    r.after (steps ++ more) = (r.after steps).after more :=
  List.foldl_append

@[simp] theorem after_concat (r : Router) (steps : List Step) (s : Step) :
    r.after (steps ++ [s]) = ((r.after steps).step s).2 :=
  List.foldl_concat ..

/-! ## What a history says -/

/-- The identifier that is registered in a step. -/
def Step.id? : Step → Option FlowId
  | .register id => some id
  | _ => none

/-- The identifiers of all subscribers, in the order of their numbers. -/
def registered (steps : List Step) : List FlowId :=
  steps.filterMap Step.id?

/-- What was done since the subscriber of a number was registered. -/
def since : (number : Nat) → List Step → List Step
  | _, [] => []
  | 0, .register _ :: steps => steps
  | number + 1, .register _ :: steps => since number steps
  | number, _ :: steps => since number steps

/-- A subscriber has registered under an identifier and has not given that up. -/
def Holds (steps : List Step) (number : Nat) (id : FlowId) : Prop :=
  (registered steps)[number]? = some id ∧ .unregister number ∉ since number steps

instance (steps : List Step) (number : Nat) (id : FlowId) : Decidable (Holds steps number id) :=
  inferInstanceAs (Decidable (_ ∧ _))

/-- The steps that end the route of a subscriber: another one registers under the same
identifier, or one of those that held a registration under it after `start`, the registration
of the subscriber, gives it up. -/
def Ends (start : List Step) (id : FlowId) : Step → Prop
  | .register id' => id' = id
  | .unregister number => Holds start number id
  | _ => False

instance (start : List Step) (id : FlowId) : DecidablePred (Ends start id)
  | .register id' => inferInstanceAs (Decidable (id' = id))
  | .unregister number => inferInstanceAs (Decidable (Holds start number id))
  | .broadcast _ | .closeQueue _ | .receive _ => inferInstanceAs (Decidable False)

/-- The line that is broadcast in a step. -/
def Step.line? : Step → Option String
  | .broadcast line => some line
  | _ => none

/-- The lines that are broadcast before a step at which a queue stops. -/
def linesUntil (stops : Step → Prop) [DecidablePred stops] (steps : List Step) : List String :=
  (steps.takeWhile fun s => ¬ stops s).filterMap Step.line?

/-- The line that a subscriber is given in a step. -/
def given (number : Nat) (r : Router) : Step → List String
  | .receive number' =>
    match (r.receive number').1 with
    | .line line => if number' = number then [line] else []
    | _ => []
  | _ => []

/-- The lines that a subscriber is given in steps, in order. -/
def givenAll (number : Nat) : Router → List Step → List String
  | _, [] => []
  | r, s :: steps => given number r s ++ givenAll number (r.step s).2 steps

/-- The lines that a subscriber was given in a history. -/
def received (number : Nat) (steps : List Step) : List String :=
  givenAll number empty steps

section Histories

variable {steps : List Step} {s : Step} {number : Nat} {id : FlowId}

theorem registered_append (steps more : List Step) :
    registered (steps ++ more) = registered steps ++ registered more :=
  List.filterMap_append

theorem since_append (h : number < (registered steps).length) (more : List Step) :
    since number (steps ++ more) = since number steps ++ more := by
  induction steps generalizing number with
  | nil => cases h
  | cons s steps ih =>
    cases s with
    | register id =>
      cases number with
      | zero => rfl
      | succ number => exact ih (Nat.lt_of_succ_lt_succ h)
    | broadcast | unregister | closeQueue | receive => cases number <;> exact ih h

/-- What was done since a registration. -/
theorem since_register (before after : List Step) (id : FlowId) :
    since (registered before).length (before ++ .register id :: after) = after := by
  induction before with
  | nil => rfl
  | cons s before ih =>
    cases s with
    | register => exact ih
    | broadcast | unregister | closeQueue | receive =>
      cases hlength : (registered before).length <;> rw [hlength] at ih <;>
        (show since (registered before).length _ = _; rw [hlength]; exact ih)

/-- Every subscriber was registered at some time. -/
theorem exists_register (h : (registered steps)[number]? = some id) :
    ∃ before after, steps = before ++ .register id :: after ∧
      number = (registered before).length := by
  induction steps generalizing number with
  | nil => cases h
  | cons s steps ih =>
    have hother (hs : s.id? = none) : ∃ before after, s :: steps = before ++ .register id :: after ∧
        number = (registered before).length := by
      rw [registered, List.filterMap_cons_none hs] at h
      obtain ⟨before, after, rfl, hnumber⟩ := ih h
      refine ⟨s :: before, after, rfl, ?_⟩
      rw [registered, List.filterMap_cons_none hs]
      exact hnumber
    cases s with
    | broadcast | unregister | closeQueue | receive => exact hother rfl
    | register id' =>
      cases number with
      | zero => exact ⟨[], steps, by rw [Option.some.inj h]; rfl, rfl⟩
      | succ number =>
        obtain ⟨before, after, rfl, rfl⟩ := ih h
        exact ⟨.register id' :: before, after, rfl, rfl⟩

theorem Holds.lt (h : Holds steps number id) : number < (registered steps).length :=
  (List.getElem?_eq_some_iff.1 h.1).1

/-- Registrations are held until they are given up. -/
theorem holds_concat :
    Holds (steps ++ [s]) number id ↔
      Holds steps number id ∧ s ≠ .unregister number ∨
        s = .register id ∧ number = (registered steps).length := by
  by_cases hlt : number < (registered steps).length
  case pos =>
    have hid : (registered (steps ++ [s]))[number]? = (registered steps)[number]? := by
      rw [registered_append, List.getElem?_append_left hlt]
    rw [Holds, hid, since_append hlt, List.mem_append, not_or, List.mem_singleton]
    constructor
    · rintro ⟨hid, hheld, hne⟩
      exact .inl ⟨⟨hid, hheld⟩, fun heq => hne heq.symm⟩
    · rintro (⟨⟨hid, hheld⟩, hne⟩ | ⟨-, rfl⟩)
      · exact ⟨hid, hheld, fun heq => hne heq.symm⟩
      · exact absurd hlt (Nat.lt_irrefl _)
  case neg =>
    have hnot : ¬ Holds steps number id := fun h => hlt h.lt
    simp only [hnot, false_and, false_or]
    constructor
    · rintro ⟨hid, -⟩
      rw [registered_append, List.getElem?_append_right (Nat.le_of_not_lt hlt)] at hid
      cases s with
      | register id' =>
        obtain ⟨hlength, hid⟩ := List.getElem?_eq_some_iff.1 hid
        have hnumber : number = (registered steps).length := by
          have hone : number - (registered steps).length < 1 := hlength
          lia
        subst hnumber
        simp only [Nat.sub_self] at hid
        exact ⟨congrArg Step.register hid, rfl⟩
      | broadcast | unregister | closeQueue | receive => cases hid
    · rintro ⟨rfl, rfl⟩
      refine ⟨?_, ?_⟩
      · rw [registered_append]
        exact List.getElem?_concat_length
      · rw [since_register]
        exact List.not_mem_nil

end Histories

/-! ## What a step does to one subscriber -/

/-- What a step makes of the queue of a subscriber. -/
def nextQueue (number : Nat) (routed : Bool) (queue : Option (List String)) :
    Step → Option (List String)
  | .broadcast line => if routed then queue.map (· ++ [line]) else queue
  | .closeQueue number' => if number' = number then none else queue
  | .receive number' => if number' = number then queue.map List.tail else queue
  | .register _ | .unregister _ => queue

/-- The steps that end a route, told by the subscribers of a router. -/
def Cuts (r : Router) (id : FlowId) : Step → Prop
  | .register id' => id' = id
  | .unregister number => ∃ queue, r.subscribers[number]? = some ⟨id, true, queue⟩
  | _ => False

section Steps

variable {r : Router} {number : Nat} {id : FlowId} {sub : Subscriber}

theorem wellFormed_receive (h : r.WellFormed) (number : Nat) :
    (r.receive number).2.WellFormed := by
  unfold receive
  split
  case h_1 id registered line lines hsub =>
    refine h.of_idOf_eq (List.Sublist.refl _) fun number' => ?_
    rw [idOf, idOf, List.getElem?_set]
    split
    case isTrue hnumber =>
      subst hnumber
      rw [if_pos (List.getElem?_eq_some_iff.1 hsub).1, hsub]
      rfl
    case isFalse => rfl
  case h_2 => exact h
  case h_3 => exact h

theorem WellFormed.step (h : r.WellFormed) (s : Step) : (r.step s).2.WellFormed := by
  cases s with
  | register id => exact h.register id
  | broadcast line => exact h.broadcast line
  | unregister number =>
    exact h.of_idOf_eq (routes_unregister_sublist number r) fun _ => idOf_unregister number
  | closeQueue number => exact h.of_idOf_eq (List.Sublist.refl _) fun _ => idOf_closeQueue _
  | receive number => exact wellFormed_receive h number

theorem WellFormed.after (h : r.WellFormed) (steps : List Step) : (r.after steps).WellFormed := by
  induction steps generalizing r with
  | nil => exact h
  | cons s steps ih => exact ih (h.step s)

/-- A route leads to a subscriber if it is the route for its identifier. -/
theorem WellFormed.leadsTo_iff (h : r.WellFormed) (hsub : r.subscribers[number]? = some sub) :
    r.leadsTo number = true ↔ (sub.id, number) ∈ r.routes := by
  rw [leadsTo, List.any_eq_true]
  constructor
  · rintro ⟨⟨id, number'⟩, hroute, hnumber⟩
    obtain rfl : number' = number := beq_iff_eq.1 hnumber
    have hid := h.leads _ hroute
    rw [idOf, hsub] at hid
    rwa [Option.some.inj hid]
  · exact fun hroute => ⟨_, hroute, beq_self_eq_true number⟩

/-- All that a step does to one subscriber. -/
theorem subscriber_step {held : Bool} {queue : Option (List String)} (h : r.WellFormed)
    (hsub : r.subscribers[number]? = some ⟨id, held, queue⟩) (s : Step) :
    (r.step s).2.subscribers[number]? =
      some ⟨id, held && s ≠ .unregister number, nextQueue number (r.leadsTo number) queue s⟩ := by
  have hlt := (List.getElem?_eq_some_iff.1 hsub).1
  cases s with
  | register id' =>
    show (r.subscribers ++ _)[number]? = _
    rw [List.getElem?_append_left hlt, hsub]
    simp [nextQueue]
  | broadcast line =>
    show (r.broadcast line).2.subscribers[number]? = _
    rw [subscribers_broadcast]
    by_cases hleads : r.leadsTo number = true
    case pos =>
      have hmem : number ∈ r.routes.map Prod.snd :=
        List.mem_map_of_mem ((h.leadsTo_iff hsub).1 hleads)
      rw [getElem?_pushAll_of_mem h.numbers_nodup hmem, hsub]
      simp [nextQueue, hleads, Subscriber.push]
    case neg =>
      rw [getElem?_pushAll_of_notMem, hsub]
      · simp [nextQueue, hleads]
      · intro hmem
        obtain ⟨route, hroute, rfl⟩ := List.mem_map.1 hmem
        exact hleads (List.any_eq_true.2 ⟨route, hroute, beq_self_eq_true _⟩)
  | unregister number' =>
    show (r.unregister number').subscribers[number]? = _
    by_cases hnumber : number' = number
    case pos =>
      subst hnumber
      cases held with
      | true =>
        rw [unregister, hsub]
        refine (List.getElem?_set_self hlt).trans ?_
        simp [nextQueue]
      | false =>
        rw [unregister, hsub]
        exact hsub
    case neg =>
      have hsame : (r.unregister number').subscribers[number]? = r.subscribers[number]? := by
        obtain heq | ⟨_, -, -, heq⟩ := unregister_cases number' r
        · rw [heq]
        · rw [heq, List.getElem?_set_ne hnumber]
      rw [hsame, hsub]
      simp [nextQueue, hnumber]
  | closeQueue number' =>
    show (r.subscribers.modify number' _)[number]? = _
    rw [List.getElem?_modify, hsub]
    by_cases hnumber : number' = number <;> simp [nextQueue, hnumber]
  | receive number' =>
    show (r.receive number').2.subscribers[number]? = _
    by_cases hnumber : number' = number
    case pos =>
      subst hnumber
      match queue, hsub with
      | none, hsub | some [], hsub =>
        rw [receive, hsub]
        refine hsub.trans ?_
        simp [nextQueue]
      | some (line :: lines), hsub =>
        rw [receive, hsub]
        refine (List.getElem?_set_self hlt).trans ?_
        simp [nextQueue]
    case neg =>
      have hsame : (r.receive number').2.subscribers[number]? = r.subscribers[number]? := by
        unfold receive
        split
        case h_1 => exact List.getElem?_set_ne hnumber
        case h_2 => rfl
        case h_3 => rfl
      rw [hsame, hsub]
      simp [nextQueue, hnumber]

/-- All that a step does to the route of one subscriber. -/
theorem route_step (hlt : number < r.subscribers.length) (s : Step) :
    (id, number) ∈ (r.step s).2.routes ↔ (id, number) ∈ r.routes ∧ ¬ r.Cuts id s := by
  cases s with
  | register id' =>
    show (id, number) ∈ (r.removeRoute id').routes ++ [(id', r.subscribers.length)] ↔ _ ∧ ¬ id' = id
    rw [List.mem_append, mem_removeRoute, List.mem_singleton, Prod.mk.injEq]
    constructor
    · rintro (⟨hroute, hne⟩ | ⟨-, hnumber⟩)
      · exact ⟨hroute, fun heq => hne heq.symm⟩
      · exact absurd hnumber (Nat.ne_of_lt hlt)
    · exact fun ⟨hroute, hne⟩ => .inl ⟨hroute, fun heq => hne heq.symm⟩
  | broadcast | closeQueue => exact (and_iff_left not_false).symm
  | unregister number' =>
    show (id, number) ∈ (r.unregister number').routes ↔
      _ ∧ ¬ ∃ queue, r.subscribers[number']? = some ⟨id, true, queue⟩
    unfold unregister
    split
    case h_1 sub hsub =>
      rw [hsub]
      split
      case isTrue hheld =>
        rw [mem_removeRoute]
        refine and_congr_right fun _ => not_congr ⟨?_, ?_⟩
        · rintro rfl
          exact ⟨sub.queue, by rw [← hheld]⟩
        · rintro ⟨queue, heq⟩
          rw [Option.some.inj heq]
      case isFalse hgiven =>
        refine (and_iff_left ?_).symm
        rintro ⟨queue, heq⟩
        exact hgiven (by rw [Option.some.inj heq])
    case h_2 hnone =>
      rw [hnone]
      exact (and_iff_left fun ⟨_, heq⟩ => nomatch heq).symm
  | receive number' =>
    have hroutes : (r.receive number').2.routes = r.routes := by
      unfold receive
      split <;> rfl
    show (id, number) ∈ (r.receive number').2.routes ↔ _
    rw [hroutes]
    exact (and_iff_left not_false).symm

end Steps

/-! ## Routers after histories -/

section Histories

variable {steps before : List Step} {s : Step} {number : Nat} {id : FlowId}

theorem wellFormed_after (steps : List Step) : (empty.after steps).WellFormed :=
  wellFormed_empty.after steps

theorem length_step (r : Router) (s : Step) :
    (r.step s).2.subscribers.length = r.subscribers.length + (registered [s]).length := by
  cases s with
  | register => exact List.length_append
  | broadcast line =>
    show (r.broadcast line).2.subscribers.length = _
    rw [subscribers_broadcast]
    generalize r.routes.map Prod.snd = numbers, r.subscribers = subscribers
    induction numbers generalizing subscribers with
    | nil => rfl
    | cons first numbers ih => exact (ih _).trans (List.length_modify ..)
  | unregister number =>
    show (r.unregister number).subscribers.length = _
    obtain heq | ⟨_, -, -, heq⟩ := unregister_cases number r
    · rw [heq]
      rfl
    · rw [heq]
      exact List.length_set
  | closeQueue => exact List.length_modify ..
  | receive number =>
    show (r.receive number).2.subscribers.length = _
    unfold receive
    split
    case h_1 => exact List.length_set
    case h_2 => rfl
    case h_3 => rfl

theorem length_after (steps : List Step) :
    (empty.after steps).subscribers.length = (registered steps).length := by
  induction steps using List.reverseRecOn with
  | nil => rfl
  | append_singleton steps s ih =>
    rw [after_concat, length_step, ih, registered_append, List.length_append]

/-- A subscriber has its identifier, and its registration until that is given up. -/
theorem exists_subscriber_after (before after : List Step) (id : FlowId) :
    ∃ queue, (empty.after (before ++ [.register id] ++ after)).subscribers[
        (registered before).length]? =
      some ⟨id, decide (.unregister (registered before).length ∉ after), queue⟩ := by
  induction after using List.reverseRecOn with
  | nil =>
    rw [List.append_nil, after_concat, ← length_after]
    exact ⟨some [], List.getElem?_concat_length⟩
  | append_singleton after s ih =>
    obtain ⟨queue, hsub⟩ := ih
    rw [← List.append_assoc, after_concat, subscriber_step (wellFormed_after _) hsub]
    refine ⟨_, congrArg (fun held => some (Subscriber.mk id held _)) ?_⟩
    simp [eq_comm]

/-- The subscribers of a router tell whose registrations are held. -/
theorem holds_iff :
    Holds steps number id ↔
      ∃ queue, (empty.after steps).subscribers[number]? = some ⟨id, true, queue⟩ := by
  constructor
  · rintro ⟨hid, hheld⟩
    obtain ⟨before, after, rfl, rfl⟩ := exists_register hid
    obtain ⟨queue, hsub⟩ := exists_subscriber_after before after id
    rw [since_register] at hheld
    rw [← List.append_cons, decide_eq_true hheld] at hsub
    exact ⟨queue, hsub⟩
  · rintro ⟨queue, hsub⟩
    have hlt := (List.getElem?_eq_some_iff.1 hsub).1
    rw [length_after] at hlt
    obtain ⟨id', hid'⟩ : ∃ id', (registered steps)[number]? = some id' :=
      ⟨_, List.getElem?_eq_getElem hlt⟩
    obtain ⟨before, after, rfl, rfl⟩ := exists_register hid'
    obtain ⟨queue', hsub'⟩ := exists_subscriber_after before after id'
    rw [← List.append_cons, hsub] at hsub'
    obtain ⟨rfl, hheld, -⟩ := Subscriber.mk.inj (Option.some.inj hsub')
    refine ⟨hid', ?_⟩
    rw [since_register]
    exact of_decide_eq_true hheld.symm

/-- While nothing ends a route, nobody gets a registration under its identifier, or gives one
up. -/
theorem holds_append_of_not_ends {start after : List Step}
    (h : ∀ s ∈ after, ¬ Ends start id s) :
    Holds (start ++ after) number id ↔ Holds start number id := by
  induction after using List.reverseRecOn generalizing number with
  | nil => rw [List.append_nil]
  | append_singleton after s ih =>
    obtain ⟨hafter, hs⟩ := List.forall_mem_append.1 h
    have hends : ¬ Ends start id s := hs s (List.mem_singleton.2 rfl)
    rw [← List.append_assoc, holds_concat, ih hafter]
    constructor
    · rintro (⟨hholds, -⟩ | ⟨rfl, -⟩)
      · exact hholds
      · exact absurd rfl hends
    · refine fun hholds => .inl ⟨hholds, ?_⟩
      rintro rfl
      exact hends hholds

/-- What ends a route is told by the history up to its registration. -/
theorem cuts_iff {start after : List Step} (h : ∀ s ∈ after, ¬ Ends start id s) (s : Step) :
    (empty.after (start ++ after)).Cuts id s ↔ Ends start id s := by
  cases s with
  | register | broadcast | closeQueue | receive => rfl
  | unregister number => exact holds_iff.symm.trans (holds_append_of_not_ends h)

/-! ### Lines -/

theorem givenAll_concat (number : Nat) (r : Router) (steps : List Step) (s : Step) :
    givenAll number r (steps ++ [s]) =
      givenAll number r steps ++ given number (r.after steps) s := by
  induction steps generalizing r with
  | nil => exact List.append_nil _
  | cons first steps ih =>
    rw [List.cons_append, givenAll, ih, givenAll, List.append_assoc]
    rfl

theorem received_concat (number : Nat) (steps : List Step) (s : Step) :
    received number (steps ++ [s]) = received number steps ++ given number (empty.after steps) s :=
  givenAll_concat number empty steps s

/-- Nobody is given lines before it has registered. -/
theorem received_eq_nil (h : (registered steps).length ≤ number) : received number steps = [] := by
  induction steps using List.reverseRecOn with
  | nil => rfl
  | append_singleton steps s ih =>
    rw [registered_append, List.length_append] at h
    rw [received_concat, ih (Nat.le_of_add_right_le h), List.nil_append]
    cases s with
    | register | broadcast | unregister | closeQueue => rfl
    | receive number' =>
      show (match (receive number' _).1 with | .line line => _ | _ => _) = []
      unfold receive
      split
      case h_1 line heq =>
        split at heq
        case h_1 hsub =>
          refine if_neg ?_
          rintro rfl
          have hlt := (List.getElem?_eq_some_iff.1 hsub).1
          rw [length_after] at hlt
          lia
        case h_2 => split at heq <;> cases heq
        case h_3 => cases heq
      case h_2 => rfl

section Lines

variable {stops : Step → Prop} [DecidablePred stops]

theorem linesUntil_cons (s : Step) (steps : List Step) :
    linesUntil stops (s :: steps) =
      if stops s then [] else s.line?.toList ++ linesUntil stops steps := by
  by_cases hs : stops s
  · simp [linesUntil, hs]
  · cases hline : s.line? <;> simp [linesUntil, hs, hline]

/-- A line that is broadcast goes behind the others, unless a step has stopped the queue. -/
theorem linesUntil_concat {s : Step} (hs : stops s → s.line? = none) (steps : List Step) :
    linesUntil stops (steps ++ [s]) =
      linesUntil stops steps ++ if ∀ x ∈ steps, ¬ stops x then s.line?.toList else [] := by
  induction steps with
  | nil =>
    rw [List.nil_append, linesUntil_cons]
    by_cases hstop : stops s
    · simp [linesUntil, hstop, hs hstop]
    · simp [linesUntil, hstop]
  | cons first steps ih =>
    rw [List.cons_append, linesUntil_cons, linesUntil_cons, ih]
    by_cases hfirst : stops first <;> simp [hfirst]

end Lines

end Histories

/-! ### The lines of a subscriber -/

/-- The steps at which the queue of a subscriber stops: its route ends, or it is closed. -/
def Stops (start : List Step) (id : FlowId) (number : Nat) (s : Step) : Prop :=
  Ends start id s ∨ s = .closeQueue number

instance (start : List Step) (id : FlowId) (number : Nat) :
    DecidablePred (Stops start id number) :=
  fun s => inferInstanceAs (Decidable (Ends start id s ∨ s = .closeQueue number))

/-- What a router has of a subscriber that registered behind `before`: these lines wait for it,
or would wait if its queue were open. -/
structure Tracked (before after : List Step) (id : FlowId) (waiting : List String) : Prop where
  subscriber :
    (empty.after (before ++ [.register id] ++ after)).subscribers[(registered before).length]? =
      some ⟨id, decide (.unregister (registered before).length ∉ after),
        if .closeQueue (registered before).length ∈ after then none else some waiting⟩
  route :
    (id, (registered before).length) ∈ (empty.after (before ++ [.register id] ++ after)).routes ↔
      ∀ s ∈ after, ¬ Ends (before ++ [.register id]) id s
  lines_eq :
    received (registered before).length (before ++ [.register id] ++ after) ++ waiting =
      linesUntil (Stops (before ++ [.register id]) id (registered before).length) after

section Tracking

variable {before after : List Step} {id : FlowId} {waiting : List String}

theorem tracked_register (before : List Step) (id : FlowId) : Tracked before [] id [] where
  subscriber := by
    rw [List.append_nil, after_concat, ← length_after]
    exact List.getElem?_concat_length
  route := by
    rw [List.append_nil, after_concat, ← length_after]
    exact iff_of_true (serves_register _ id).route (List.forall_mem_nil _)
  lines_eq := by
    rw [List.append_nil, List.append_nil, received_concat, received_eq_nil (Nat.le_refl _)]
    rfl

theorem given_receive {r : Router} {number : Nat} {held : Bool} {queue : Option (List String)}
    (hsub : r.subscribers[number]? = some ⟨id, held, queue⟩) (number' : Nat) :
    given number r (.receive number') =
      if number' = number then (queue.getD []).head?.toList else [] := by
  by_cases hnumber : number' = number
  case pos =>
    subst hnumber
    match queue, hsub with
    | none, hsub => simp [given, receive, hsub]
    | some [], hsub => cases hleads : r.leadsTo number' <;> simp [given, receive, hsub, hleads]
    | some (line :: lines), hsub => simp [given, receive, hsub]
  case neg =>
    simp only [given, if_neg hnumber]
    split <;> rfl

/-- The queue of a subscriber is open, and its route has not ended. -/
theorem not_stops_iff {start : List Step} {number : Nat} :
    (∀ s ∈ after, ¬ Stops start id number s) ↔
      (∀ s ∈ after, ¬ Ends start id s) ∧ .closeQueue number ∉ after := by
  constructor
  · intro h
    exact ⟨fun s hs hends => h s hs (.inl hends), fun hclosed => h _ hclosed (.inr rfl)⟩
  · rintro ⟨hends, hopen⟩ s hs (hstop | rfl)
    · exact hends s hs hstop
    · exact hopen hs

theorem Stops.line?_eq_none {start : List Step} {number : Nat} {s : Step}
    (h : Stops start id number s) : s.line? = none := by
  cases s with
  | broadcast => obtain h | h := h <;> cases h
  | register | unregister | closeQueue | receive => rfl

/-- A router keeps track of its subscribers. -/
theorem Tracked.step (h : Tracked before after id waiting) (s : Step) :
    ∃ waiting', Tracked before (after ++ [s]) id waiting' := by
  obtain ⟨hsub, hroute, hlines⟩ := h
  have hwf := wellFormed_after (before ++ [.register id] ++ after)
  have hsub' := subscriber_step hwf hsub s
  have hroute' : (id, (registered before).length) ∈
      ((empty.after (before ++ [.register id] ++ after)).step s).2.routes ↔ _ :=
    route_step (List.getElem?_eq_some_iff.1 hsub).1 s
  rw [hroute, and_congr_right fun hafter => not_congr (cuts_iff hafter s)] at hroute'
  have hleads := (hwf.leadsTo_iff hsub).trans hroute
  have hgiven := given_receive hsub
  generalize hr : empty.after (before ++ [.register id] ++ after) = r at *
  generalize hrouted : r.leadsTo (registered before).length = routed at hsub' hleads
  -- What is given and what waits then is what waited, and the line that comes in.
  have htracked : ∀ waiting',
      nextQueue (registered before).length routed
          (if .closeQueue (registered before).length ∈ after then none else some waiting) s =
        (if .closeQueue (registered before).length ∈ after ++ [s] then none else some waiting') →
      given (registered before).length r s ++ waiting' =
        waiting ++ (if routed = true ∧ .closeQueue (registered before).length ∉ after then
          s.line?.toList else []) →
      Tracked before (after ++ [s]) id waiting' := by
    intro waiting' hqueue hwaiting
    refine ⟨?_, ?_, ?_⟩
    · rw [← List.append_assoc, after_concat, hr, hsub', hqueue]
      simp [eq_comm]
    · rw [← List.append_assoc, after_concat, hr, hroute', List.forall_mem_append,
        List.forall_mem_singleton]
    · rw [← List.append_assoc, received_concat, hr, linesUntil_concat Stops.line?_eq_none, ← hlines,
        List.append_assoc, hwaiting]
      simp only [not_stops_iff, hleads, List.append_assoc]
  generalize (registered before).length = number at hgiven htracked
  clear hsub' hroute' hlines hroute hsub
  cases s with
  | register | unregister =>
    exact ⟨waiting, htracked _ (by simp [nextQueue]) (by simp [given, Step.line?])⟩
  | broadcast line =>
    refine ⟨_, htracked
      (waiting ++ if routed = true ∧ .closeQueue number ∉ after then [line] else []) ?_ rfl⟩
    by_cases hclosed : .closeQueue number ∈ after <;> cases routed <;> simp [nextQueue, hclosed]
  | closeQueue number' =>
    refine ⟨waiting, htracked _ ?_ (by simp [given, Step.line?])⟩
    by_cases hnumber : number' = number
    · simp [nextQueue, hnumber]
    · simp [nextQueue, hnumber, Ne.symm hnumber]
  | receive number' =>
    by_cases hown : number' = number ∧ .closeQueue number ∉ after
    case pos =>
      obtain ⟨rfl, hopen⟩ := hown
      refine ⟨waiting.tail, htracked _ (by simp [nextQueue, hopen]) ?_⟩
      rw [hgiven]
      cases waiting <;> simp [hopen, Step.line?]
    case neg =>
      refine ⟨waiting, htracked _ ?_ ?_⟩
      · by_cases hnumber : number' = number <;> simp_all [nextQueue]
      · rw [hgiven]
        by_cases hnumber : number' = number <;> simp_all [Step.line?]

/-- What a router has of any subscriber is told by the history. -/
theorem exists_tracked (before after : List Step) (id : FlowId) :
    ∃ waiting, Tracked before after id waiting := by
  induction after using List.reverseRecOn with
  | nil => exact ⟨[], tracked_register before id⟩
  | append_singleton after s ih =>
    obtain ⟨waiting, h⟩ := ih
    exact h.step s

end Tracking

end Parley.Chat.Router
