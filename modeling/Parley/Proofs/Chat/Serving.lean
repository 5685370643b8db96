import Parley.Chat.Server
import Parley.Proofs.Chat.Visitors

/-!
# Serving

A server that was started serves whoever joins, until it is told to stop. Then all who joined
are released, and nobody is listening any more, whether the server is started again or not.

- `Session.Hosts`: a session in which all runs are those of visitors.
- `Session.Closes`: a session that can be stopped, and that holds no route when it was.
- `Server.Step`, `Server.after`: what is done with a server.
- `Server.serves_after`: what a server is good for after that.
- `Server.exists_refused`: a server that is started and does not listen.
-/

namespace Parley.Chat

open Wire

namespace Session

variable {name peer guest : String} {guests : List String} {s : Session} {p q : Peer}
  {heard : List (String × String)} {step : Step} {steps : List Step} {strays : List FlowId}

/-! ## Sessions of visitors -/

/-- Where nobody is opened, nobody is displaced. -/
theorem Owned.followAll_of_not_opens (h : s.Owned name strays)
    (hopens : ∀ step ∈ steps, ∀ peer, ¬ step.Opens peer) :
    (s.followAll steps).Owned name strays := by
  induction steps generalizing s with
  | nil => exact h
  | cons step steps ih =>
    obtain ⟨hstep, hsteps⟩ := List.forall_mem_cons.1 hopens
    exact ih (h.follow_of_ne (fun peer heq => hstep peer (.inl heq)) fun peer heq =>
      hstep peer (.inr heq)) hsteps

/-- A step about a peer opens and closes no queue by name. -/
theorem outboxes_follow (h : step.subject ≠ none) : (s.follow step).outboxes = s.outboxes := by
  have heffect := s.effect_follow step
  generalize s.requests step = requests, s.follow step = s' at heffect ⊢
  cases heffect with
  | still | turn | openFlow | openConnection => rfl
  | typeLine | endTyping | closeConsole | cancel | broadcast | consume | openOutbox | nextLine
  | closeOutbox => exact absurd rfl h

theorem outboxes_followAll (h : ∀ step ∈ steps, step.subject ≠ none) :
    (s.followAll steps).outboxes = s.outboxes := by
  induction steps generalizing s with
  | nil => rfl
  | cons step steps ih =>
    obtain ⟨hstep, hsteps⟩ := List.forall_mem_cons.1 h
    exact (ih hsteps).trans (outboxes_follow hstep)

/-- Peers keep their names, and others come only when they are opened. -/
theorem name_of_mem_followAll (hq : q ∈ (s.followAll steps).peers) :
    (∃ p ∈ s.peers, p.name = q.name) ∨ ∃ step ∈ steps, step.Opens q.name := by
  induction steps generalizing s with
  | nil => exact .inl ⟨q, hq, rfl⟩
  | cons step steps ih =>
    obtain ⟨p, hp, hname⟩ | ⟨later, hlater, hopens⟩ := ih hq
    · rw [← hname]
      cases became_of_mem_follow hp with
      | same hp => exact .inl ⟨p, hp, rfl⟩
      | turn hp hturn => exact .inl ⟨_, hp, hturn.name_eq.symm⟩
      | opened hopens => exact .inr ⟨step, List.mem_cons_self, hopens⟩
      | cancelled hp heq => exact .inl ⟨_, hp, (congrArg Peer.name heq).symm⟩
    · exact .inr ⟨later, List.mem_cons_of_mem _ hlater, hopens⟩

theorem exists_mem_followAll (hp : p ∈ s.peers) (steps : List Step) :
    ∃ q ∈ (s.followAll steps).peers, q.name = p.name := by
  induction steps generalizing s p with
  | nil => exact ⟨p, hp, rfl⟩
  | cons step steps ih =>
    obtain ⟨p', hp', hname⟩ := exists_mem_follow hp step
    obtain ⟨q, hq, hname'⟩ := ih hp'
    exact ⟨q, hq, hname'.trans hname⟩

/-- A session of a server in which the flows of these guests were run, each once, and nothing
was done but that bytes arrived from them. -/
structure Hosts (name : String) (guests : List String) (s : Session) : Prop where
  owned : s.Owned name []
  steady : s.Steady name
  undisturbed : s.Undisturbed False
  balanced : ∃ log, s.Balanced name log fun peer => guests.count peer
  outboxes : s.outboxes = []
  known : ∀ p ∈ s.peers, p.name ∈ guests
  started : ∀ p ∈ s.peers, p.Started
  engaged : ∀ p ∈ s.peers, ∃ bytes heard, p.Engaged false bytes heard false false

theorem hosts_newServer (name : String) (transform : Transform) (nextObject : Formula.ObjectId)
    (clock : Clock) : (ofNode (.newServer name transform nextObject clock)).Hosts name [] where
  owned := owned_newServer name transform nextObject clock
  steady := steady_ofNode (.newServer name transform nextObject clock)
  undisturbed := undisturbed_newServer name transform nextObject clock
  balanced := ⟨_, balanced_newServer name transform nextObject clock⟩
  outboxes := rfl
  known := List.forall_mem_nil _
  started := List.forall_mem_nil _
  engaged := List.forall_mem_nil _

theorem Hosts.mono (h : s.Hosts name guests) (peer : String) : s.Hosts name (guests ++ [peer]) where
  owned := h.owned
  steady := h.steady
  undisturbed := h.undisturbed
  balanced := by
    obtain ⟨log, hbalanced⟩ := h.balanced
    refine ⟨log, hbalanced.mono fun other => ?_⟩
    rw [List.count_append]
    exact Nat.le_add_right ..
  outboxes := h.outboxes
  known p hp := List.mem_append_left _ (h.known p hp)
  started := h.started
  engaged := h.engaged

/-- Steps that leave all guests alone make a session of guests, if those who are opened are. -/
theorem Hosts.followAll {guests' : List String} (h : s.Hosts name guests)
    (hspares : ∀ other ∈ guests, ∀ step ∈ steps, step.Spares other)
    (hquiet : ∀ step ∈ steps, step.IsQuiet) (hsubject : ∀ step ∈ steps, step.subject ≠ none)
    (howned : (s.followAll steps).Owned name [])
    (hcounts : ∀ other, guests.count other + attempts other steps ≤ guests'.count other)
    (hnew : ∀ q ∈ (s.followAll steps).peers, (∃ step ∈ steps, step.Opens q.name) →
      q.name ∈ guests' ∧ q.Started ∧ ∃ bytes heard, q.Engaged false bytes heard false false) :
    (s.followAll steps).Hosts name guests' := by
  have hdistinct := distinct_followAll h.steady.distinct steps
  have hall : ∀ q ∈ (s.followAll steps).peers,
      q.name ∈ guests' ∧ q.Started ∧ ∃ bytes heard, q.Engaged false bytes heard false false := by
    intro q hq
    obtain ⟨p, hp, hname⟩ | hopened := name_of_mem_followAll hq
    · have hknown := h.known p hp
      have hspared := hspares p.name hknown
      obtain ⟨r, hr, hrname, hstarted⟩ := exists_started h.steady hp (h.started p hp) steps
        (fun step hstep => (hspared step hstep).not_opens)
        fun step hstep => (hspared step hstep).ne_abandon
      obtain ⟨bytes, heard, hengaged⟩ := h.engaged p hp
      obtain ⟨r', hr', hrname', hengaged', -⟩ :=
        exists_engaged_of_spares h.undisturbed h.steady hp hengaged hspared
      obtain rfl := eq_of_name_eq hdistinct hr hq (hrname.trans hname)
      obtain rfl := eq_of_name_eq hdistinct hr' hq (hrname'.trans hname)
      refine ⟨List.count_pos_iff.1 ?_, hstarted, bytes, hengaged'⟩
      have hcount := hcounts p.name
      have hpos := List.count_pos_iff.2 hknown
      rw [← hname]
      omega
    · exact hnew q hq hopened
  obtain ⟨log, hbalanced⟩ := h.balanced
  exact
    { owned := howned
      steady := steady_followAll h.steady steps
      undisturbed := undisturbed_followAll h.undisturbed hquiet
      balanced := ⟨_, (balanced_followAll hbalanced steps).mono hcounts⟩
      outboxes := (outboxes_followAll hsubject).trans h.outboxes
      known := fun q hq => (hall q hq).1
      started := fun q hq => (hall q hq).2.1
      engaged := fun q hq => (hall q hq).2.2 }

/-- Runs go on. -/
theorem Hosts.polls (h : s.Hosts name guests) (hpolls : ∀ step ∈ steps, step.IsPoll) :
    (s.followAll steps).Hosts name guests := by
  have hfeeds : ∀ step ∈ steps, step.Feeds "" := fun step hstep => .inl (hpolls step hstep)
  refine h.followAll (fun other _ step hstep => .inl (hpolls step hstep))
    (fun step hstep => (hfeeds step hstep).isQuiet)
    (fun step hstep => (hfeeds step hstep).subject_ne_none)
    (h.owned.followAll_of_not_opens fun step hstep other => (hfeeds step hstep).not_opens)
    (fun other => ?_) ?_
  · rw [attempts_eq_zero fun step hstep => (hfeeds step hstep).attempts_eq]
    exact Nat.le_refl _
  · rintro q - ⟨step, hstep, hopens⟩
    exact absurd hopens (hfeeds step hstep).not_opens

/-- What is done for a visitor: a connection is opened and run, and bytes arrive. -/
def visitSteps (peer : String) (before after : List Step) : List Step :=
  .perform (.openConnection peer) :: (before ++ .perform (.run peer) :: after)

section Visits

variable {before after : List Step}

/-- Each step of a visit is one of those. -/
theorem mem_visitSteps (hbefore : ∀ step ∈ before, step.IsPoll)
    (hafter : ∀ step ∈ after, step.Feeds peer) (hstep : step ∈ visitSteps peer before after) :
    step = .perform (.openConnection peer) ∨ step = .perform (.run peer) ∨ step.Feeds peer := by
  rw [visitSteps, List.mem_cons, List.mem_append, List.mem_cons] at hstep
  obtain hstep | hstep | hstep | hstep := hstep
  · exact .inl hstep
  · exact .inr (.inr (.inl (hbefore step hstep)))
  · exact .inr (.inl hstep)
  · exact .inr (.inr (hafter step hstep))

theorem isQuiet_of_mem_visitSteps (hbefore : ∀ step ∈ before, step.IsPoll)
    (hafter : ∀ step ∈ after, step.Feeds peer) (hstep : step ∈ visitSteps peer before after) :
    step.IsQuiet := by
  obtain rfl | rfl | hfed := mem_visitSteps hbefore hafter hstep
  · exact isQuiet_of_opening (.inr rfl)
  · exact isQuiet_run peer
  · exact hfed.isQuiet

/-- A visit is about nobody but the visitor. -/
theorem spares_of_mem_visitSteps {other : String} (hbefore : ∀ step ∈ before, step.IsPoll)
    (hafter : ∀ step ∈ after, step.Feeds peer) (hstep : step ∈ visitSteps peer before after)
    (hne : peer ≠ other) : step.Spares other := by
  have hquiet := isQuiet_of_mem_visitSteps hbefore hafter hstep
  have hsubject : some peer ≠ some other := fun heq => hne (Option.some.inj heq)
  obtain rfl | rfl | hfed := mem_visitSteps hbefore hafter hstep
  · exact .inr ⟨hquiet, hsubject⟩
  · exact .inr ⟨hquiet, hsubject⟩
  · exact hfed.spares hne

/-- In a visit one handshake is begun. -/
theorem attempts_visitSteps (hbefore : ∀ step ∈ before, step.IsPoll)
    (hafter : ∀ step ∈ after, step.Feeds peer) (other : String) :
    attempts other (visitSteps peer before after) = [peer].count other := by
  have hfeeds : ∀ step ∈ before, step.Feeds peer := fun step hstep => .inl (hbefore step hstep)
  have hnone : attempts other before = 0 :=
    attempts_eq_zero fun step hstep => (hfeeds step hstep).attempts_eq
  have hnone' : attempts other after = 0 :=
    attempts_eq_zero fun step hstep => (hafter step hstep).attempts_eq
  rw [visitSteps, attempts, attempts_append, attempts, hnone, hnone', List.count_singleton]
  simp [Step.attempts]

/-- A flow that is run hears what arrives after that. -/
theorem exists_started_engaged (hs : s.Undisturbed False) (hsteady : s.Steady name)
    (hp : p ∈ s.peers) (hname : p.name = peer) (hfresh : p.Fresh [] false)
    (hbefore : ∀ step ∈ before, step.IsPoll) (hafter : ∀ step ∈ after, step.Feeds peer) :
    ∃ q ∈ (s.followAll (before ++ .perform (.run peer) :: after)).peers, q.name = peer ∧
      q.Started ∧ ∃ heard, q.Engaged false (received peer after) heard false false := by
  have hfeeds : ∀ step ∈ before ++ after, step.Feeds peer :=
    List.forall_mem_append.2 ⟨fun step hstep => .inl (hbefore step hstep), hafter⟩
  have hcalm : ∀ step ∈ before ++ after, step.IsCalm peer :=
    fun step hstep => (hfeeds step hstep).isCalm
  have hends : ∀ step ∈ before ++ after, step.ends peer = false :=
    fun step hstep => (hfeeds step hstep).ends_eq
  have hreceived : received peer (before ++ after) = received peer after := by
    have hnothing : received peer before = [] :=
      received_eq_nil_of_spares fun step hstep => .inl (hbefore step hstep)
    rw [received] at hnothing
    rw [received, List.flatMap_append, hnothing, List.nil_append, received]
  have hgrants : (s.followAll before).Grants false peer (.perform (.run peer) :: after) :=
    grants_of_undisturbed
      (undisturbed_followAll hs fun step hstep => (hcalm step (List.mem_append_left _ hstep)).1)
      (List.forall_mem_cons.2 ⟨isQuiet_run peer, fun step hstep => (hafter step hstep).isQuiet⟩)
  obtain ⟨q, hq, hqname, hengaged⟩ :=
    exists_engaged hs hp hname hfresh hcalm hgrants (inOrder_of_ends_eq hends)
  rw [any_ends_eq_false hends, any_ends_eq_false (List.forall_mem_append.1 hends).1, hreceived]
    at hengaged
  -- until it is run the flow is fresh, so that the run begins
  obtain ⟨p₁, hp₁, hname₁, hfresh₁, -⟩ :=
    fresh_followAll hs hp hname hfresh (List.forall_mem_append.1 hcalm).1
  have hsteady₁ := steady_followAll hsteady before
  obtain ⟨p₂, hp₂, hname₂, hstarted⟩ :=
    exists_started_of_run hsteady₁ hp₁ hfresh₁.free hfresh₁.created
  rw [hname₁] at hp₂ hname₂
  obtain ⟨q', hq', hqname', hstarted'⟩ := exists_started (steady_follow hsteady₁ _) hp₂ hstarted
    after (fun step hstep => (hafter step hstep).not_opens)
    fun step hstep => (hafter step hstep).ne_abandon
  rw [← followAll_cons, ← followAll_append] at hq'
  have hdistinct := distinct_followAll hs.distinct (before ++ .perform (.run peer) :: after)
  obtain rfl := eq_of_name_eq hdistinct hq' hq ((hqname'.trans hname₂).trans hqname.symm)
  exact ⟨q', hq, hqname, hstarted', _, hengaged⟩

/-- A visitor hears what has arrived. -/
theorem exists_visitor (hs : s.Undisturbed False) (hsteady : s.Steady name)
    (hbefore : ∀ step ∈ before, step.IsPoll) (hafter : ∀ step ∈ after, step.Feeds peer) :
    ∃ p ∈ (s.followAll (visitSteps peer before after)).peers, p.name = peer ∧ p.Started ∧
      ∃ heard, p.Engaged false (received peer after) heard false false := by
  have hopening : Step.perform (.openConnection peer) = .perform (.openFlow peer) ∨
      Step.perform (.openConnection peer) = .perform (.openConnection peer) := .inr rfl
  obtain ⟨p, hp, hname, hfresh⟩ := exists_fresh_of_opening hs hopening
  exact exists_started_engaged (undisturbed_follow hs (isQuiet_of_opening hopening))
    (steady_follow hsteady _) hp hname hfresh hbefore hafter

/-- A visitor takes nobody's place. -/
theorem Hosts.displaced_eq_nil (h : s.Hosts name guests) (hnew : peer ∉ guests) :
    s.displaced (.perform (.openConnection peer)) = [] := by
  refine List.map_eq_nil_iff.2 (List.filter_eq_nil_iff.2 fun p hp hname => hnew ?_)
  exact beq_iff_eq.1 hname ▸ h.known p (List.mem_of_mem_filter hp)

/-- A visitor is one guest more. -/
theorem Hosts.visit (h : s.Hosts name guests) (hnew : peer ∉ guests)
    (hbefore : ∀ step ∈ before, step.IsPoll) (hafter : ∀ step ∈ after, step.Feeds peer) :
    (s.followAll (visitSteps peer before after)).Hosts name (guests ++ [peer]) := by
  have hfeeds : ∀ step ∈ before, step.Feeds peer := fun step hstep => .inl (hbefore step hstep)
  have hsteps : ∀ step ∈ visitSteps peer before after,
      step = .perform (.openConnection peer) ∨ step = .perform (.run peer) ∨ step.Feeds peer :=
    fun _ => mem_visitSteps hbefore hafter
  refine h.followAll (fun other hother step hstep => ?_)
    (fun step hstep => isQuiet_of_mem_visitSteps hbefore hafter hstep) (fun step hstep => ?_) ?_
    (fun other => ?_) fun q hq hopened => ?_
  · exact spares_of_mem_visitSteps hbefore hafter hstep fun heq => hnew (heq ▸ hother)
  · obtain rfl | rfl | hfed := hsteps step hstep
    · exact Option.some_ne_none peer
    · exact Option.some_ne_none peer
    · exact hfed.subject_ne_none
  · have hopened := h.owned.openConnection peer
    rw [h.displaced_eq_nil hnew] at hopened
    refine hopened.followAll_of_not_opens (List.forall_mem_append.2 ⟨fun step hstep other => ?_,
      List.forall_mem_cons.2 ⟨fun other => ?_, fun step hstep other => ?_⟩⟩)
    · exact (hfeeds step hstep).not_opens
    · rintro (heq | heq) <;> cases heq
    · exact (hafter step hstep).not_opens
  · exact Nat.le_of_eq (by rw [attempts_visitSteps hbefore hafter, List.count_append])
  · obtain ⟨p, hp, hname, hstarted, heard, hengaged⟩ :=
      exists_visitor h.undisturbed h.steady hbefore hafter
    have hpeer : q.name = peer := by
      obtain ⟨step, hstep, hopens⟩ := hopened
      obtain rfl | rfl | hfed := hsteps step hstep
      · obtain heq | heq := hopens <;> cases heq
        rfl
      · obtain heq | heq := hopens <;> cases heq
      · exact absurd hopens hfed.not_opens
    have hdistinct := distinct_followAll h.steady.distinct (visitSteps peer before after)
    obtain rfl := eq_of_name_eq hdistinct hp hq (hname.trans hpeer.symm)
    exact ⟨by simp [hpeer], hstarted, _, heard, hengaged⟩

end Visits

/-! ## Joining -/

theorem act_eq_settle (s : Session) (action : Action) :
    (s.act action).2 = (s.follow (.perform action)).settle :=
  rfl

/-- Somebody connects and sends what a visitor sends. -/
def welcome (peer guest : String) (s : Session) : Session :=
  s.actAll [.openConnection peer, .run peer, .farEnd peer (.arrive (frameBytes signature)),
    .farEnd peer (.arrive (frameBytes (Text.Utf8.encode guest)))]

/-- That is a visit, after which all runs go on. -/
theorem exists_visit (hs : s.Distinct) (peer guest : String) :
    ∃ before after, (∀ step ∈ before, Step.IsPoll step) ∧ (∀ step ∈ after, step.Feeds peer) ∧
      received peer after = visit guest ∧
      s.welcome peer guest = (s.followAll (visitSteps peer before after)).settle := by
  obtain ⟨first, hfirst, heq₁⟩ := exists_polls_act hs (.openConnection peer)
  have hs₁ := heq₁ ▸ distinct_followAll hs (.perform (.openConnection peer) :: first)
  obtain ⟨second, hsecond, heq₂⟩ := exists_polls_act hs₁ (.run peer)
  have hs₂ := heq₂ ▸ distinct_followAll hs₁ (.perform (.run peer) :: second)
  let greet : Action := .farEnd peer (.arrive (frameBytes signature))
  let introduce : Action := .farEnd peer (.arrive (frameBytes (Text.Utf8.encode guest)))
  obtain ⟨third, hthird, heq₃⟩ := exists_polls_act hs₂ greet
  have hfeeds : ∀ {polls : List Step}, (∀ step ∈ polls, step.IsPoll) →
      ∀ step ∈ polls, step.Feeds peer := fun hpolls step hstep => .inl (hpolls step hstep)
  have hnothing : ∀ {polls : List Step}, (∀ step ∈ polls, step.IsPoll) →
      polls.flatMap (Step.chunk peer) = [] := fun hpolls =>
    received_eq_nil_of_spares fun step hstep => .inl (hpolls step hstep)
  refine ⟨first, second ++ .perform greet :: (third ++ [.perform introduce]), hfirst, ?_, ?_, ?_⟩
  · refine List.forall_mem_append.2 ⟨hfeeds hsecond, List.forall_mem_cons.2 ⟨.inr ⟨_, rfl⟩, ?_⟩⟩
    exact List.forall_mem_append.2 ⟨hfeeds hthird, List.forall_mem_singleton.2 (.inr ⟨_, rfl⟩)⟩
  · have hchunk : ∀ chunk, Step.chunk peer (.perform (.farEnd peer (.arrive chunk))) = chunk :=
      fun chunk => if_pos rfl
    rw [received, List.flatMap_append, List.flatMap_cons, List.flatMap_append, hnothing hsecond,
      hnothing hthird, List.nil_append, List.nil_append, List.flatMap_singleton, hchunk, hchunk]
    rfl
  · rw [visitSteps, ← List.cons_append, followAll_append, ← heq₁, ← List.cons_append,
      followAll_append, ← heq₂, ← List.cons_append, followAll_append, ← heq₃, followAll_cons,
      followAll_nil, ← act_eq_settle]
    rfl

theorem Hosts.settle (h : s.Hosts name guests) : s.settle.Hosts name guests := by
  obtain ⟨polls, hpolls, heq⟩ := exists_polls_settle h.steady.distinct
  rw [heq]
  exact h.polls hpolls

theorem Hosts.welcome (h : s.Hosts name guests) (hnew : peer ∉ guests) (guest : String) :
    (s.welcome peer guest).Hosts name (guests ++ [peer]) := by
  obtain ⟨before, after, hbefore, hafter, -, heq⟩ := exists_visit h.steady.distinct peer guest
  rw [heq]
  exact (h.visit hnew hbefore hafter).settle

/-- A visitor with a name gets past the handshake. -/
theorem Hosts.exists_entered (h : s.Hosts name guests) (hnew : peer ∉ guests) (hguest : guest ≠ "")
    (hfits : Wire.Fits (Text.Utf8.encode guest)) :
    ∃ p ∈ (s.welcome peer guest).peers, p.name = peer ∧ p.Entered guest := by
  obtain ⟨before, after, hbefore, hafter, hreceived, heq⟩ :=
    exists_visit h.steady.distinct peer guest
  obtain ⟨p, hp, hname, -, heard, hengaged⟩ :=
    exists_visitor h.undisturbed h.steady hbefore hafter
  have hvisited := h.visit hnew hbefore hafter
  rw [heq]
  rw [hreceived] at hengaged
  generalize s.followAll (visitSteps peer before after) = t at hp hvisited ⊢
  obtain ⟨q, hq, hname', hentered⟩ :=
    exists_entered_poll hvisited.undisturbed hvisited.steady hp hengaged hguest hfits
  obtain ⟨polls, hpolls, hround⟩ := exists_polls_poll hvisited.steady.distinct
  have hpolled := hround ▸ hvisited.polls hpolls
  obtain ⟨polls', hpolls', hround'⟩ := exists_polls_poll hpolled.steady.distinct
  obtain ⟨r, hr, hname'', hentered'⟩ := exists_entered_of_spares hpolled.undisturbed
    hpolled.steady hq hentered fun step hstep => .inl (hpolls' step hstep)
  rw [← hround'] at hr
  exact ⟨r, hr, hname''.trans (hname'.trans hname), hentered'⟩

/-- Who is past the handshake stays there while others join. -/
theorem Hosts.exists_entered_of_ne {g : String} (h : s.Hosts name guests) (hnew : peer ∉ guests)
    (hp : p ∈ s.peers) (hentered : p.Entered g) (guest : String) :
    ∃ q ∈ (s.welcome peer guest).peers, q.name = p.name ∧ q.Entered g := by
  obtain ⟨before, after, hbefore, hafter, -, heq⟩ := exists_visit h.steady.distinct peer guest
  have hvisited := h.visit hnew hbefore hafter
  have hspares : ∀ step ∈ visitSteps peer before after, step.Spares p.name :=
    fun step hstep => spares_of_mem_visitSteps hbefore hafter hstep fun heq =>
      hnew (heq ▸ h.known p hp)
  obtain ⟨q, hq, hname, hentered'⟩ :=
    exists_entered_of_spares h.undisturbed h.steady hp hentered hspares
  obtain ⟨polls, hpolls, hround⟩ := exists_polls_settle hvisited.steady.distinct
  obtain ⟨r, hr, hname', hentered''⟩ := exists_entered_of_spares hvisited.undisturbed
    hvisited.steady hq hentered' fun step hstep => .inl (hpolls step hstep)
  rw [heq, hround]
  exact ⟨r, hr, hname'.trans hname, hentered''⟩

/-! ## Sessions that are stopped -/

/-- A session in which every run that has not returned is one that everything is accepted from. -/
structure Closes (name : String) (s : Session) : Prop where
  owned : s.Owned name []
  steady : s.Steady name
  outboxes : s.outboxes = []
  started : ∀ p ∈ s.peers, p.Started
  accepts : ∀ p ∈ s.peers, ∀ phase, p.presence = .running phase →
    p.flow.link.stream.acceptance = .everything

theorem Hosts.closes (h : s.Hosts name guests) : s.Closes name where
  owned := h.owned
  steady := h.steady
  outboxes := h.outboxes
  started := h.started
  accepts p hp phase hrunning := by
    obtain ⟨bytes, heard, hengaged⟩ := h.engaged p hp
    cases hengaged with
    | running _ _ _ hhears =>
      cases hhears with
      | handshaking _ hlink | pumping _ hlink => exact hlink.accepts
    | settled hpresence =>
      obtain hpresence | hpresence := hpresence <;> cases hrunning.symm.trans hpresence

/-- When all runs have gone on twice, those that were asked to stop are over. -/
theorem Closes.released_settle (h : s.Closes name) (hcancelled : s.cancelled = true) :
    ∀ q ∈ s.settle.peers, q.Released := by
  intro q hq
  obtain ⟨r, hr, n, -, rfl⟩ := exists_of_mem_poll hq
  obtain ⟨p, hp, n', hname, rfl⟩ := exists_of_mem_poll hr
  have hreturned := p.poll_ne_running (n := n') (h.steady.stops p hp hcancelled) (h.accepts p hp)
  have hstarted : (p.poll n').1.Started :=
    (h.steady.peers p hp).started_poll (hname.trans h.steady.named) (h.started p hp)
  rw [Peer.poll_of_ne_running hreturned]
  exact hstarted.released hreturned

theorem Closes.asked (h : s.Closes name) : (s.follow (.perform .cancel)).Closes name where
  owned := h.owned.follow_of_ne (fun _ heq => nomatch heq) fun _ heq => nomatch heq
  steady := steady_follow h.steady _
  outboxes := h.outboxes
  started q hq := by
    obtain ⟨p, hp, rfl⟩ := List.mem_map.1 hq
    obtain hrunning | ⟨hpresence, hresult, hover⟩ := h.started p hp
    · exact .inl hrunning
    · exact .inr ⟨hpresence, hresult, hover.state, rfl, hover.holding⟩
  accepts q hq := by
    obtain ⟨p, hp, rfl⟩ := List.mem_map.1 hq
    exact h.accepts p hp

/-- All runs have returned when the session was stopped, and it can be stopped again. -/
theorem Closes.cancel (h : s.Closes name) :
    (s.act .cancel).2.Closes name ∧ ∀ q ∈ (s.act .cancel).2.peers, q.Released := by
  have hasked := h.asked
  have hreleased : ∀ q ∈ (s.act .cancel).2.peers, q.Released := hasked.released_settle rfl
  obtain ⟨polls, hpolls, heq⟩ := exists_polls_settle hasked.steady.distinct
  have hfeeds : ∀ step ∈ polls, step.Feeds "" := fun step hstep => .inl (hpolls step hstep)
  refine ⟨?_, hreleased⟩
  change (s.act .cancel).2 = _ at heq
  exact
    { owned := heq ▸ hasked.owned.followAll_of_not_opens fun step hstep _ =>
        (hfeeds step hstep).not_opens
      steady := heq ▸ steady_followAll hasked.steady polls
      outboxes := heq ▸ (outboxes_followAll fun step hstep =>
        (hfeeds step hstep).subject_ne_none).trans hasked.outboxes
      started := fun q hq => .inr ⟨(hreleased q hq).presence, (hreleased q hq).result,
        (hreleased q hq).closed⟩
      accepts := fun q hq phase hrunning => absurd hrunning ((hreleased q hq).ne_running phase) }

/-- A session in which all runs have returned has no routes. -/
theorem Closes.size_eq_zero (h : s.Closes name) (hreleased : ∀ q ∈ s.peers, q.Released) :
    s.node.router.size = 0 := by
  have hactive : s.activeIds = [] := by
    refine List.map_eq_nil_iff.2 (List.filter_eq_nil_iff.2 fun p hp hactive => ?_)
    obtain ⟨-, phase, hrunning⟩ := Peer.isActive_iff.1 hactive
    exact (hreleased p hp).ne_running phase hrunning
  have houtboxes : s.outboxIds = [] := by rw [outboxIds, h.outboxes, List.filterMap_nil]
  have hperm := h.owned.ids_perm
  rw [hactive, houtboxes] at hperm
  rw [Router.size, ← List.length_map Prod.fst]
  exact hperm.length_eq

end Session

namespace Server

/-! ## What is done with a server -/

/-- A server is started or stopped, or somebody joins it. -/
inductive Step where
  | start
  | stop
  | join (peer guest : String)

/-- The server after a step. Nothing comes of joining a server that does not listen. -/
def step (s : Server) : Step → Server
  | .start => s.start
  | .stop => s.stop
  | .join peer guest =>
    match s.join .prompt peer guest with
    | .reached s' => s'
    | .refused | .unanswered => s

/-- The server after steps, one after the other. -/
def after (s : Server) (steps : List Step) : Server :=
  steps.foldl step s

/-- Those who try to join. -/
def visitors (steps : List Step) : List String :=
  steps.filterMap fun
    | .join peer _ => some peer
    | _ => none

/-- A server whose flow with this peer is introduced to it, and takes and passes on lines. -/
structure Serves (s : Server) (peer guest : String) (p : Peer) : Prop where
  found : s.session.peer? peer = some p
  knows : s.knows peer = true
  active : p.isActive = true
  named : p.flow.remoteName = some guest
  routed : p.flow.id ∈ s.session.node.router.ids
  /-- The peer can read the signature and the name of the server. -/
  greeted : frameOf signature ++ frameOf (Text.Utf8.encode s.session.node.name) <+:
    p.flow.link.stream.written

variable {name peer guest : String} {s : Server} {p : Peer} {steps : List Step}
  {guests : List String}

theorem after_append (s : Server) (steps more : List Step) :
    s.after (steps ++ more) = (s.after steps).after more :=
  List.foldl_append

theorem after_cons (s : Server) (step : Step) (steps : List Step) :
    s.after (step :: steps) = (s.step step).after steps :=
  rfl

/-- Whoever joins a server that listens is welcome. -/
theorem join_of_isListening (h : s.isListening = true) (peer guest : String) :
    s.join .prompt peer guest = .reached { s with session := s.session.welcome peer guest } := by
  simp only [join, connect, h, Bool.not_true, Bool.false_eq_true, if_false, receive,
    Session.welcome, Session.actAll, List.foldl_cons, List.foldl_nil]

theorem join_of_not_isListening (h : s.isListening = false) (peer guest : String) :
    s.join .prompt peer guest = .refused := by
  rw [join, connect, h]
  rfl

/-- Joining a server changes its session, or nothing. -/
theorem step_join_cases (s : Server) (peer guest : String) :
    (s.isListening = true ∧ (s.step (.join peer guest)).bound = s.bound ∧
        (s.step (.join peer guest)).stopped = s.stopped ∧
        (s.step (.join peer guest)).session = s.session.welcome peer guest) ∨
      s.isListening = false ∧ s.step (.join peer guest) = s := by
  cases hlistening : s.isListening with
  | true =>
    rw [step, join_of_isListening hlistening]
    exact .inl ⟨rfl, rfl, rfl, by dsimp only⟩
  | false => exact .inr ⟨rfl, by rw [step, join_of_not_isListening hlistening]⟩

theorem bound_step (first : Step) :
    (s.step first).bound = true ↔ s.bound = true ∨ .start = first := by
  cases first with
  | start => simp [step, start]
  | stop => simp [step, stop]
  | join peer guest =>
    obtain ⟨-, hbound, -, -⟩ | ⟨-, heq⟩ := s.step_join_cases peer guest
    · simp [hbound]
    · simp [heq]

theorem stopped_step (first : Step) :
    (s.step first).stopped = true ↔ s.stopped = true ∨ .stop = first := by
  cases first with
  | start => simp [step, start]
  | stop => simp [step, stop]
  | join peer guest =>
    obtain ⟨-, -, hstopped, -⟩ | ⟨-, heq⟩ := s.step_join_cases peer guest
    · simp [hstopped]
    · simp [heq]

/-- A server has an address from its first start on. -/
theorem bound_after : (s.after steps).bound = true ↔ s.bound = true ∨ .start ∈ steps := by
  induction steps generalizing s with
  | nil => simp [after]
  | cons first steps ih => rw [after_cons, ih, bound_step, or_assoc, List.mem_cons]

/-- It does not listen any more from its first stop on. -/
theorem stopped_after : (s.after steps).stopped = true ↔ s.stopped = true ∨ .stop ∈ steps := by
  induction steps generalizing s with
  | nil => simp [after]
  | cons first steps ih => rw [after_cons, ih, stopped_step, or_assoc, List.mem_cons]

/-! ## What the steps preserve -/

/-- The session of a server that these tried to join: until the server is stopped all runs are
those of visitors, and after that all have returned. -/
structure Keeps (name : String) (guests : List String) (s : Server) : Prop where
  hosts : s.stopped = false → s.session.Hosts name guests
  closes : s.stopped = true → s.session.Closes name ∧ ∀ p ∈ s.session.peers, p.Released

theorem keeps_ofNode (name : String) (transform : Transform) (nextObject : Formula.ObjectId)
    (clock : Clock) : (ofNode (.newServer name transform nextObject clock)).Keeps name [] where
  hosts _ := Session.hosts_newServer name transform nextObject clock
  closes hstopped := nomatch hstopped

theorem Keeps.closes_of (h : s.Keeps name guests) : s.session.Closes name := by
  cases hstopped : s.stopped with
  | false => exact (h.hosts hstopped).closes
  | true => exact (h.closes hstopped).1

theorem Keeps.step (h : s.Keeps name guests) {first : Step}
    (hnew : ∀ peer ∈ visitors [first], peer ∉ guests) :
    (s.step first).Keeps name (guests ++ visitors [first]) := by
  cases first with
  | start =>
    rw [show visitors [.start] = [] from rfl, List.append_nil]
    exact ⟨h.hosts, h.closes⟩
  | stop =>
    rw [show visitors [.stop] = [] from rfl, List.append_nil]
    exact ⟨fun hstopped => (nomatch hstopped), fun _ => h.closes_of.cancel⟩
  | join peer guest =>
    have hvisitors : visitors [.join peer guest] = [peer] := rfl
    rw [hvisitors] at hnew ⊢
    have hpeer := hnew peer (List.mem_singleton_self peer)
    obtain ⟨hlistening, -, hstopped, hsession⟩ | ⟨-, heq⟩ := s.step_join_cases peer guest
    · have hopen : s.stopped = false := by
        rw [isListening, Bool.and_eq_true, Bool.not_eq_true'] at hlistening
        exact hlistening.2
      refine ⟨fun _ => ?_, fun htrue => ?_⟩
      · rw [hsession]
        exact (h.hosts hopen).welcome hpeer guest
      · exact absurd (hopen.symm.trans (hstopped.symm.trans htrue)) Bool.false_ne_true
    · rw [heq]
      exact ⟨fun hopen => (h.hosts hopen).mono peer, h.closes⟩

theorem visitors_cons (first : Step) (steps : List Step) :
    visitors (first :: steps) = visitors [first] ++ visitors steps :=
  List.filterMap_append (l := [first])

/-- Who joins in the first step is new, and who joins after that is new still. -/
theorem nodup_visitors_cons {first : Step} (h : (guests ++ visitors (first :: steps)).Nodup) :
    (∀ peer ∈ visitors [first], peer ∉ guests) ∧
      (guests ++ visitors [first] ++ visitors steps).Nodup := by
  rw [visitors_cons, ← List.append_assoc] at h
  refine ⟨fun peer hpeer hguest => ?_, h⟩
  exact (List.nodup_append.1 (List.nodup_append.1 h).1).2.2 peer hguest peer hpeer rfl

theorem Keeps.after (h : s.Keeps name guests) (hnodup : (guests ++ visitors steps).Nodup) :
    (s.after steps).Keeps name (guests ++ visitors steps) := by
  induction steps generalizing s guests with
  | nil =>
    rw [show visitors [] = [] from rfl, List.append_nil]
    exact h
  | cons first steps ih =>
    obtain ⟨hnew, hnodup⟩ := nodup_visitors_cons hnodup
    rw [visitors_cons, ← List.append_assoc]
    exact ih (h.step hnew) hnodup

/-- Whatever is done with a server, its session goes on. -/
theorem exists_steps_after (hs : s.session.Distinct) (steps : List Step) :
    ∃ trace, (s.after steps).session = s.session.followAll trace := by
  induction steps generalizing s with
  | nil => exact ⟨[], rfl⟩
  | cons first steps ih =>
    have hfirst : ∃ trace, (s.step first).session = s.session.followAll trace := by
      cases first with
      | start => exact ⟨[], rfl⟩
      | stop => exact Session.exists_steps_act hs .cancel
      | join peer guest =>
        obtain ⟨-, -, -, hsession⟩ | ⟨-, heq⟩ := s.step_join_cases peer guest
        · rw [hsession]
          exact Session.exists_steps_actAll hs _
        · rw [heq]
          exact ⟨[], rfl⟩
    obtain ⟨trace, htrace⟩ := hfirst
    obtain ⟨more, hmore⟩ := ih (htrace ▸ Session.distinct_followAll hs trace)
    refine ⟨trace ++ more, ?_⟩
    rw [after_cons, hmore, htrace, Session.followAll_append]

/-- As long as the server is not stopped, who is past the handshake stays there. -/
theorem Keeps.exists_entered_after (h : s.Keeps name guests)
    (hnodup : (guests ++ visitors steps).Nodup) (hopen : s.stopped = false)
    (hstop : .stop ∉ steps) (hp : p ∈ s.session.peers) (hentered : p.Entered guest) :
    ∃ q ∈ (s.after steps).session.peers, q.name = p.name ∧ q.Entered guest := by
  induction steps generalizing s guests p with
  | nil => exact ⟨p, hp, rfl, hentered⟩
  | cons first steps ih =>
    obtain ⟨hnew, hnodup⟩ := nodup_visitors_cons hnodup
    have hfirst : (s.step first).stopped = false ∧
        ∃ q ∈ (s.step first).session.peers, q.name = p.name ∧ q.Entered guest := by
      cases first with
      | start => exact ⟨hopen, p, hp, rfl, hentered⟩
      | stop => exact absurd List.mem_cons_self hstop
      | join peer other =>
        have hpeer := hnew peer (List.mem_singleton_self peer)
        obtain ⟨-, -, hstopped, hsession⟩ | ⟨-, heq⟩ := s.step_join_cases peer other
        · rw [hstopped, hsession]
          exact ⟨hopen, (h.hosts hopen).exists_entered_of_ne hpeer hp hentered other⟩
        · rw [heq]
          exact ⟨hopen, p, hp, rfl, hentered⟩
    obtain ⟨hopen', q, hq, hname, hentered'⟩ := hfirst
    obtain ⟨r, hr, hname', hentered''⟩ := ih (h.step hnew) hnodup hopen'
      (fun hmem => hstop (List.mem_cons_of_mem _ hmem)) hq hentered'
    exact ⟨r, hr, hname'.trans hname, hentered''⟩

/-! ## Serving -/

theorem routes_eq (s : Server) : s.routes = s.session.node.router.size := by
  unfold routes
  cases s.session.node with
  | server | client => rfl

/-- Who is past the handshake of a server that is not stopped is served. -/
theorem serves_of_entered (h : s.session.Hosts name guests) (hnodup : guests.Nodup)
    (hp : p ∈ s.session.peers) (hentered : p.Entered guest) (hguest : guest ≠ "")
    (hfits : Fits (Text.Utf8.encode guest)) : s.Serves p.name guest p := by
  obtain ⟨log, hbalanced⟩ := h.balanced
  obtain ⟨outbox, receiving, rest, hpresence, hlink, hnamed⟩ :=
    hentered.exists_pumping (h.steady.peers p hp) hguest hfits
  have hphase := (h.steady.peers p hp).suits
  rw [hpresence] at hphase
  obtain ⟨hstate, hintroduced⟩ := hphase
  have hfound := Session.peer?_of_mem h.steady.distinct hp
  have hactive : p.isActive = true := Peer.isActive_iff.2 ⟨hstate, _, hpresence⟩
  refine ⟨hfound, ?_, hactive, hnamed, (hbalanced.routed_iff hp).2 hactive, ?_⟩
  · rw [knows, hfound]
    exact hintroduced
  · -- one handshake was begun, in which each of both was written once
    have haccount := hbalanced.accounts p hp
    rw [hpresence] at haccount
    obtain ⟨number, _, _, signatures, names, _, _, taken, _, -, -, hqueues⟩ :=
      Session.exists_queues haccount hstate
    have hone : guests.count p.name ≤ 1 := List.nodup_iff_count_le_one.1 hnodup p.name
    have hsignatures : signatures = 1 :=
      Nat.le_antisymm (Nat.le_trans hqueues.signatures_le hone) hqueues.signatures_pos
    have hnames : names = 1 :=
      Nat.le_antisymm (Nat.le_trans hqueues.names_le hone) hqueues.names_pos
    have hout := hqueues.out
    rw [Link.out, hlink.flushed, List.append_nil, hsignatures, hnames, greeting, copies_one,
      copies_one, ← hbalanced.named] at hout
    exact ⟨_, hout.symm⟩

/-- Who joins a server that listens is served until it is stopped, and released then. -/
theorem Keeps.of_join (h : s.Keeps name guests) (hlistening : s.isListening = true)
    (hnodup : (guests ++ visitors (.join peer guest :: steps)).Nodup) (hguest : guest ≠ "")
    (hfits : Fits (Text.Utf8.encode guest)) :
    (.stop ∉ steps → ∃ p, (s.after (.join peer guest :: steps)).Serves peer guest p) ∧
      (.stop ∈ steps →
        ∃ p, (s.after (.join peer guest :: steps)).session.peer? peer = some p ∧ p.Released) := by
  have hall := h.after hnodup
  obtain ⟨hnew, hnodup'⟩ := nodup_visitors_cons hnodup
  have hfirst := h.step hnew
  have hopen : s.stopped = false := by
    rw [isListening, Bool.and_eq_true, Bool.not_eq_true'] at hlistening
    exact hlistening.2
  obtain ⟨-, -, hstill, hsession⟩ | ⟨hdeaf, -⟩ := s.step_join_cases peer guest
  case inr => cases hlistening.symm.trans hdeaf
  obtain ⟨p, hp, hname, hentered⟩ :=
    (h.hosts hopen).exists_entered (hnew peer (List.mem_singleton_self peer)) hguest hfits
  rw [← hsession] at hp
  rw [after_cons] at hall ⊢
  generalize s.step (.join peer guest) = s₁ at hall hfirst hstill hp ⊢
  have hopen₁ := hstill.trans hopen
  have hstopped : (s₁.after steps).stopped = true ↔ .stop ∈ steps :=
    stopped_after.trans (or_iff_right (Bool.eq_false_iff.1 hopen₁))
  refine ⟨fun hstop => ?_, fun hstop => ?_⟩
  · obtain ⟨q, hq, hqname, hentered'⟩ :=
      hfirst.exists_entered_after hnodup' hopen₁ hstop hp hentered
    have hhosts := hall.hosts (Bool.eq_false_iff.2 fun htrue => hstop (hstopped.1 htrue))
    have hserves := serves_of_entered hhosts hnodup hq hentered' hguest hfits
    rw [hqname, hname] at hserves
    exact ⟨q, hserves⟩
  · obtain ⟨hcloses, hreleased⟩ := hall.closes (hstopped.2 hstop)
    obtain ⟨trace, htrace⟩ := exists_steps_after hfirst.closes_of.steady.distinct steps
    obtain ⟨q, hq, hqname⟩ := Session.exists_mem_followAll hp trace
    rw [← htrace] at hq
    rw [← hname, ← hqname]
    exact ⟨q, Session.peer?_of_mem hcloses.steady.distinct hq, hreleased q hq⟩

/-- **Serving.** A server is started and stopped and joined in any order, any number of times.
Somebody who joins it under a name is served as long as it was started and never stopped, and is
refused otherwise, also when it was stopped and then started again. When it was stopped, nobody
has a route any more, and the streams of all who joined are released. -/
theorem serves_after (name : String) (transform : Transform) (nextObject : Formula.ObjectId)
    (clock : Clock) {before after : List Step}
    (hnodup : (visitors (before ++ .join peer guest :: after)).Nodup) (hguest : guest ≠ "")
    (hfits : Fits (Text.Utf8.encode guest)) :
    let s := (ofNode (.newServer name transform nextObject clock)).after before
    let s' := (ofNode (.newServer name transform nextObject clock)).after
      (before ++ .join peer guest :: after)
    (.start ∈ before → .stop ∉ before →
      (∃ joined, s.join .prompt peer guest = .reached joined) ∧
        (.stop ∉ after → ∃ p, s'.Serves peer guest p) ∧
        (.stop ∈ after → ∃ p, s'.session.peer? peer = some p ∧ p.Released)) ∧
      (.start ∉ before ∨ .stop ∈ before → s.join .prompt peer guest = .refused) ∧
      (.stop ∈ before ++ after →
        s'.routes = 0 ∧ ∀ p ∈ s'.session.peers, p.Released) := by
  intro s s'
  have hprefix : (visitors before ++ visitors (.join peer guest :: after)).Nodup :=
    List.filterMap_append (l := before) ▸ hnodup
  have hnew := keeps_ofNode name transform nextObject clock
  have hkeeps : s.Keeps name ([] ++ visitors before) :=
    hnew.after (List.nodup_append.1 hprefix).1
  have hkeeps' : s'.Keeps name ([] ++ visitors (before ++ .join peer guest :: after)) :=
    hnew.after hnodup
  have hstopped' : s'.stopped = true ↔ .stop ∈ before ++ after := by
    refine stopped_after.trans ((or_iff_right Bool.false_ne_true).trans ?_)
    simp
  have hlistening : s.isListening = true ↔ .start ∈ before ∧ .stop ∉ before := by
    have hbound : s.bound = true ↔ .start ∈ before :=
      bound_after.trans (or_iff_right Bool.false_ne_true)
    have hstopped : s.stopped = true ↔ .stop ∈ before :=
      stopped_after.trans (or_iff_right Bool.false_ne_true)
    rw [isListening, Bool.and_eq_true, Bool.not_eq_true', ← hbound, ← hstopped, Bool.not_eq_true]
  have hsplit : s' = s.after (.join peer guest :: after) := after_append ..
  refine ⟨fun hstart hstop => ?_, fun hnot => ?_, fun hstop => ?_⟩
  · have hlistens := hlistening.2 ⟨hstart, hstop⟩
    rw [hsplit]
    exact ⟨⟨_, join_of_isListening hlistens peer guest⟩,
      hkeeps.of_join hlistens hprefix hguest hfits⟩
  · refine join_of_not_isListening (Bool.eq_false_iff.2 fun hlistens => ?_) peer guest
    obtain ⟨hstart, hstop⟩ := hlistening.1 hlistens
    exact hnot.elim (fun h => h hstart) hstop
  · obtain ⟨hcloses, hreleased⟩ := hkeeps'.closes (hstopped'.2 hstop)
    exact ⟨s'.routes_eq.trans (hcloses.size_eq_zero hreleased), hreleased⟩

/-- A server that nobody has joined yet. -/
def hub : Server :=
  ofNode (.newServer "hub" .stamp 0 .morning)

/-- A guest is served, though the server is started again and a nameless one joins it. -/
theorem exists_serves_alice :
    ∃ p, (hub.after ([.start] ++ .join "a" "alice" :: [.start, .join "b" ""])).Serves
      "a" "alice" p := by
  have hnodup : (visitors ([.start] ++ .join "a" "alice" :: [.start, .join "b" ""])).Nodup := by
    decide
  obtain ⟨hserves, -, -⟩ := serves_after "hub" .stamp 0 .morning hnodup
    (by decide) (by decide)
  exact (hserves (by simp) (by simp)).2.1 (by simp)

/-- A server that was stopped has its address as before when it is started again, but it refuses
whoever joins it. -/
theorem exists_refused :
    ∃ steps : List Step, steps.getLast? = some .start ∧ (hub.after steps).bound = true ∧
      (hub.after steps).join .prompt "a" "alice" = .refused :=
  ⟨[.start, .stop, .start], rfl, rfl, rfl⟩

end Server

end Parley.Chat
