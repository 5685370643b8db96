import Parley.Proofs.Chat.Conversation
import Parley.Proofs.Chat.Takers

/-!
# What runs come to

At a server a run comes to what the bytes from its far end say. At a client it does so too,
unless somebody else takes the typed lines: the first flow that has had its handshake takes
them, at any time while the session lasts, and every other one is refused when it has had its
own. So who has the lines in the end decides for every flow of a client how its run ends, though
the run asks for them only once.

- `Session.takenFrom`: whether somebody else than a flow takes the typed lines.
- `Tended.offers`: what a client answers to a flow that asks for its queue.
- `Session.exists_outcome_of_run`: what a run comes to, of a server or of a client.
-/

namespace Parley.Chat

open Wire

/-- A server to which nobody is connected, or a client at which nothing was typed. -/
def Node.IsNew (n : Node) : Prop :=
  (∃ name transform nextObject clock, n = .newServer name transform nextObject clock) ∨
    ∃ name, n = .newClient name

namespace Session

/-- Whether somebody else than the flow of this number takes the typed lines in these steps. -/
def takenFrom (id : FlowId) (s : Session) (steps : List Step) : Bool :=
  (s.takersAll steps).any (· ≠ id)

theorem takersAll_append (s : Session) (steps more : List Step) :
    s.takersAll (steps ++ more) = s.takersAll steps ++ (s.followAll steps).takersAll more := by
  induction steps generalizing s with
  | nil => rfl
  | cons step steps ih => rw [List.cons_append, takersAll, takersAll, ih, List.append_assoc,
      followAll_cons]

/-- At a server there are no typed lines. -/
theorem takersAll_of_undisturbed {s : Session} {steps : List Step} (hs : s.Undisturbed False)
    (hquiet : ∀ step ∈ steps, step.IsQuiet) : s.takersAll steps = [] := by
  induction steps generalizing s with
  | nil => rfl
  | cons step steps ih =>
    obtain ⟨hfirst, hrest⟩ := List.forall_mem_cons.1 hquiet
    have hnone : ¬ s.node.IsFree := by
      have hserver := hs.isServer
      cases hnode : s.node with
      | server node => exact not_false
      | client node => exact (hnode ▸ hserver).elim
    rw [takersAll, takers, Node.takers_of_taken hnone, ih (undisturbed_follow hs hfirst) hrest]
    rfl

section Clients

variable {name peer : String} {takers all : List FlowId} {accepted : List String}
  {counts : String → Nat} {s : Session} {p p' : Peer} {step : Step} {steps : List Step}
  {requests : List Request} {id next : FlowId}

/-- A flow that has not had its handshake has not taken the typed lines. -/
theorem Tended.notMem_of_stranger (h : s.Tended name takers accepted counts) (hp : p ∈ s.peers)
    (hturn : Turn s p step p' requests next) (hstranger : p.flow.isIntroduced = false) :
    p'.flow.id ∉ takers := by
  intro hmem
  obtain hpersists | hnew := hturn.persists
  · cases (h.introduced p hp (hpersists.id ▸ hmem)).symm.trans hstranger
  · exact absurd (h.known _ hmem).2 (hnew ▸ Int.lt_irrefl _)

/-- The answer to a flow that asks for its queue when it has had its handshake. One taker is
all there will be, so that a flow which finds the lines free is the one, and a flow which does
not is none. -/
theorem Tended.offers (h : s.Tended name takers accepted counts) (hopen : s.node.IsOpenClient)
    (hp : p ∈ s.peers) (hturn : Turn s p step p' requests next)
    (hstranger : p.flow.isIntroduced = false) {rest : List Request}
    (hasks : requests = .openOutbox id :: rest)
    (hall : takers ++ s.node.takers requests <+: all) (hsole : all.length ≤ 1) :
    s.node.Offers (all.any (· ≠ p'.flow.id)) id := by
  unfold Node.Offers
  by_cases hfree : s.node.IsFree
  case pos =>
    have htaken : s.node.takers requests ≠ [] := by
      rw [hasks, Node.takers, Node.taker_of_isFree hfree]
      exact List.cons_ne_nil _ _
    have hown : takers ++ s.node.takers requests = [p'.flow.id] := by
      obtain ⟨-, hnone⟩ | hown := (h.told_turn hp hturn).minds
      · exact absurd hnone htaken
      · exact hown
    obtain rfl : [p'.flow.id] = all := by
      rw [hown] at hall
      exact hall.eq_of_length_le hsole
    obtain ⟨n', hopenOutbox, -⟩ := Node.openOutbox_of_isFree hfree id
    have hserved : s.node.serve (.openOutbox id) = n' := congrArg Prod.snd hopenOutbox
    have hopen' := Node.isOpenClient_serve hopen (.openOutbox id)
    rw [hserved] at hopen'
    rw [hopenOutbox]
    exact ⟨by simp, Node.isEnded_of_isOpenClient hopen' .typed⟩
  case neg =>
    have hsome : takers ≠ [] := fun hnil => hfree (h.node.free_iff.2 hnil)
    obtain ⟨other, hother⟩ := List.exists_mem_of_ne_nil takers hsome
    have hne : other ≠ p'.flow.id := fun heq =>
      h.notMem_of_stranger hp hturn hstranger (heq ▸ hother)
    rw [Node.openOutbox_of_taken h.node.client hfree]
    refine ⟨List.any_eq_true.2 ⟨other, ?_, decide_eq_true hne⟩, rfl⟩
    exact hall.subset (List.mem_append_left _ hother)

/-- The same for a step of the peer. -/
theorem Tended.grants_turn (h : s.Tended name takers accepted counts)
    (hopen : s.node.IsOpenClient) (hp : p ∈ s.peers)
    (hturn : Turn s p step p' (s.requests step) next)
    (hne : ∀ key, step ≠ .perform (.openOutbox key))
    (hall : takers ++ s.takersAll (step :: steps) = all) (hsole : all.length ≤ 1)
    (hstranger : p.flow.isIntroduced = false) :
    s.node.Grants (all.any (· ≠ p'.flow.id)) (s.requests step) := by
  intro id rest hasks
  refine h.offers hopen hp hturn hstranger hasks ?_ hsole
  rw [← hall, takersAll, Session.takers, s.asks_of_ne hne, ← List.append_assoc]
  exact List.prefix_append ..

/-- What arrives, and going on with a run, leaves a flow its number. -/
theorem Calmly.id_eq {chunk : Bytes} {ends : Bool} {lines : List (String × String)}
    (h : s.Calmly p step p' chunk ends lines) : p'.flow.id = p.flow.id := by
  cases h with
  | still | arrive | finish => rfl
  | poll => exact (p.persists_poll s.node).id

/-- While the run of a flow goes on, it gets the queue unless somebody else takes the lines. -/
theorem Tended.grants (h : s.Tended name takers accepted counts) (hopen : s.node.IsOpenClient)
    (hp : p ∈ s.peers) (hname : p.name = peer) (hcalm : ∀ step ∈ steps, step.IsCalm peer)
    (hall : takers ++ s.takersAll steps = all) (hsole : all.length ≤ 1) :
    s.Grants (all.any (· ≠ p.flow.id)) peer steps ∧
      ∃ q ∈ (s.followAll steps).peers, q.name = peer ∧ q.flow.id = p.flow.id := by
  induction steps generalizing s takers accepted counts p with
  | nil => exact ⟨trivial, p, hp, hname, rfl⟩
  | cons step steps ih =>
    obtain ⟨hfirst, hrest⟩ := List.forall_mem_cons.1 hcalm
    obtain ⟨p₁, hp₁, hname₁, hcalmly⟩ := calmly_follow h.distinct hp hname hfirst
    have hall' : (takers ++ s.takers step) ++ (s.follow step).takersAll steps = all := by
      rw [List.append_assoc]
      exact hall
    obtain ⟨hgrants, q, hq, hqname, hid⟩ := ih (h.follow step)
      (isOpenClient_follow hopen hfirst.1) hp₁ hname₁ hrest hall'
    rw [hcalmly.id_eq] at hgrants hid
    refine ⟨⟨fun r hr hrname hsubject hstranger => ?_, hgrants⟩, q, hq, hqname, hid⟩
    obtain rfl := eq_of_name_eq h.distinct hr hp (hrname.trans hname.symm)
    subst hname
    obtain rfl | ⟨chunk, rfl⟩ | rfl := hfirst.2 hsubject
    · have hturn : Turn s r (.poll r.name) (r.poll s.node).1 (s.requests (.poll r.name))
          s.nextFlow := requests_poll h.distinct hp ▸ .poll
      rw [← (r.persists_poll s.node).id]
      exact h.grants_turn hopen hp hturn (fun _ => (nomatch ·)) hall hsole hstranger
    · exact fun id rest hasks => nomatch hasks
    · exact fun id rest hasks => nomatch hasks

/-- The same from the beginning of the run, when a connection gets its number. -/
theorem Tended.grants_run (h : s.Tended name takers accepted counts) (hopen : s.node.IsOpenClient)
    (hp : p ∈ s.peers) (hname : p.name = peer) (hstranger : p.flow.isIntroduced = false)
    (hcalm : ∀ step ∈ steps, step.IsCalm peer)
    (hall : takers ++ s.takersAll (.perform (.run peer) :: steps) = all) (hsole : all.length ≤ 1) :
    ∃ q ∈ (s.followAll (.perform (.run peer) :: steps)).peers, q.name = peer ∧
      s.Grants (all.any (· ≠ q.flow.id)) peer (.perform (.run peer) :: steps) := by
  subst hname
  have hturn : Turn s p (.perform (.run p.name)) (p.run s.nextFlow s.cancelled s.node).1
      (s.requests (.perform (.run p.name)))
      (if p.isUnnumbered then s.nextFlow + 1 else s.nextFlow) :=
    requests_run h.distinct hp ▸ .run
  have hp₁ : (p.run s.nextFlow s.cancelled s.node).1 ∈
      (s.follow (.perform (.run p.name))).peers := by
    rw [follow_run h.distinct hp]
    exact mem_setPeer_self
  have hall' : (takers ++ s.takers (.perform (.run p.name))) ++
      (s.follow (.perform (.run p.name))).takersAll steps = all := by
    rw [List.append_assoc]
    exact hall
  obtain ⟨hgrants, q, hq, hqname, hid⟩ := (h.follow (.perform (.run p.name))).grants
    (isOpenClient_follow hopen (isQuiet_run p.name)) hp₁ (name_run ..) hcalm hall' hsole
  refine ⟨q, hq, hqname, ?_⟩
  rw [hid]
  refine ⟨fun r hr hrname _ _ => ?_, hgrants⟩
  exact h.grants_turn hopen hp hturn (fun _ => (nomatch ·)) hall hsole hstranger

end Clients

/-! ## Whole runs -/

/-- The steps of a session from where a flow is open: its run begins behind some steps, and goes
on once behind others. -/
def runSteps (peer : String) (before during rest : List Step) : List Step :=
  (before ++ .perform (.run peer) :: during) ++ .poll peer :: rest

theorem runSteps_eq (peer : String) (before during rest : List Step) :
    runSteps peer before during rest =
      before ++ .perform (.run peer) :: (during ++ .poll peer :: rest) := by
  rw [runSteps, List.append_assoc, List.cons_append]

section Runs

variable {n : Node} {peer : String} {client : Prop} {s : Session}
  {earlier before during rest steps : List Step} {opening : Step}

theorem isQuiet_of_mem_runSteps (hcalm : ∀ step ∈ before ++ during ++ rest, step.IsCalm peer) :
    ∀ step ∈ runSteps peer before during rest, step.IsQuiet := by
  intro step hstep
  simp only [runSteps, List.mem_append, List.mem_cons] at hstep hcalm
  obtain (hbefore | rfl | hduring) | rfl | hrest := hstep
  · exact (hcalm step (.inl (.inl hbefore))).1
  · exact isQuiet_run peer
  · exact (hcalm step (.inl (.inr hduring))).1
  · exact isQuiet_poll peer
  · exact (hcalm step (.inr hrest)).1

theorem isQuiet_of_mem_opened (hearlier : ∀ step ∈ earlier, step.IsQuiet)
    (hopening : opening = .perform (.openFlow peer) ∨ opening = .perform (.openConnection peer)) :
    ∀ step ∈ earlier ++ [opening], step.IsQuiet :=
  List.forall_mem_append.2 ⟨hearlier, List.forall_mem_singleton.2 (isQuiet_of_opening hopening)⟩

/-- A flow that is opened behind some steps is fresh. -/
theorem exists_fresh_followAll (hs : s.Undisturbed client)
    (hearlier : ∀ step ∈ earlier, step.IsQuiet)
    (hopening : opening = .perform (.openFlow peer) ∨ opening = .perform (.openConnection peer)) :
    (s.followAll (earlier ++ [opening])).Undisturbed client ∧
      ∃ p ∈ (s.followAll (earlier ++ [opening])).peers, p.name = peer ∧ p.Fresh [] false := by
  have hs' := undisturbed_followAll hs hearlier
  rw [followAll_append, followAll_cons, followAll_nil]
  exact ⟨undisturbed_follow hs' (isQuiet_of_opening hopening), exists_fresh_of_opening hs' hopening⟩

theorem exists_peer?_of_outcome {outcome : Outcome} (h : s.outcome peer steps = some outcome) :
    ∃ p, (s.followAll steps).peer? peer = some p := by
  obtain ⟨p, hp, -⟩ := Option.bind_eq_some_iff.1 h
  exact ⟨p, hp⟩

/-- What a run comes to at a client depends on who takes the typed lines in the whole session. -/
theorem exists_grants_of_tended {name : String} (hs : s.Undisturbed True)
    (h : s.Tended name [] [] fun _ => 0) (hopen : s.node.IsOpenClient)
    (hearlier : ∀ step ∈ earlier, step.IsQuiet)
    (hopening : opening = .perform (.openFlow peer) ∨ opening = .perform (.openConnection peer))
    (hcalm : ∀ step ∈ before ++ during ++ rest, step.IsCalm peer) :
    ∃ q ∈ (s.followAll ((earlier ++ [opening]) ++ runSteps peer before during rest)).peers,
      q.name = peer ∧
      ((s.followAll (earlier ++ [opening])).followAll before).Grants
        (s.takenFrom q.flow.id ((earlier ++ [opening]) ++ runSteps peer before during rest)) peer
        ((.perform (.run peer) :: during) ++ .poll peer :: rest) := by
  obtain ⟨hs', p₀, hp₀, hname₀, hfresh₀⟩ := exists_fresh_followAll hs hearlier hopening
  simp only [List.forall_mem_append] at hcalm
  obtain ⟨⟨hbefore, hduring⟩, hrest⟩ := hcalm
  obtain ⟨p, hp, hname, hfresh, -⟩ := fresh_followAll hs' hp₀ hname₀ hfresh₀ hbefore
  have hafter : ∀ step ∈ during ++ .poll peer :: rest, step.IsCalm peer :=
    List.forall_mem_append.2 ⟨hduring, List.forall_mem_cons.2 ⟨Step.isCalm_poll peer, hrest⟩⟩
  have hquiet : ∀ step ∈ (earlier ++ [opening]) ++ before, step.IsQuiet :=
    List.forall_mem_append.2
      ⟨isQuiet_of_mem_opened hearlier hopening, fun step hstep => (hbefore step hstep).1⟩
  have hopen' := isOpenClient_followAll hopen hquiet
  have htended := h.followAll ((earlier ++ [opening]) ++ before)
  rw [followAll_append] at htended hopen'
  have hsteps : (earlier ++ [opening]) ++ runSteps peer before during rest =
      ((earlier ++ [opening]) ++ before) ++
        .perform (.run peer) :: (during ++ .poll peer :: rest) := by
    rw [runSteps_eq, ← List.append_assoc]
  have hsole := (h.followAll ((earlier ++ [opening]) ++ runSteps peer before during rest)).sole
  rw [hsteps, takersAll_append, followAll_append] at hsole
  obtain ⟨q, hq, hqname, hgrants⟩ :=
    htended.grants_run hopen' hp hname (Flow.isIntroduced_of_nameless hfresh.nameless) hafter rfl
      hsole
  refine ⟨q, ?_, hqname, ?_⟩
  · rw [hsteps, followAll_append, followAll_append _ (earlier ++ [opening])]
    exact hq
  · rw [takenFrom, hsteps, takersAll_append, followAll_append]
    exact hgrants

/-- **What a run comes to.** A flow of a server or of a client is opened, bytes arrive in
chunks, and the run of the flow begins at some step between; the far end ends the stream,
behind which the run goes on once. Then the name of the far end, the lines that were handed
on to the node and the result are what all those bytes say, whatever else was done with the
node and with other flows. Only at a client it matters whether somebody else takes the typed
lines: then a run that has had its handshake hears no lines, and ends with that finding. -/
theorem exists_outcome_of_run (hn : n.IsNew) (hearlier : ∀ step ∈ earlier, step.IsQuiet)
    (hopening : opening = .perform (.openFlow peer) ∨ opening = .perform (.openConnection peer))
    (hcalm : ∀ step ∈ before ++ during ++ rest, step.IsCalm peer)
    (horder : InOrder peer (before ++ during ++ rest))
    (hends : (before ++ during).any (Step.ends peer) = true) :
    ∃ p,
      ((ofNode n).followAll ((earlier ++ [opening]) ++ runSteps peer before during rest)).peer?
        peer = some p ∧
      ((ofNode n).followAll (earlier ++ [opening])).outcome peer
          (runSteps peer before during rest) =
        some (conversation
          ((ofNode n).takenFrom p.flow.id
            ((earlier ++ [opening]) ++ runSteps peer before during rest))
          (frames (received peer (before ++ during)))) := by
  have hquiet := isQuiet_of_mem_runSteps hcalm
  obtain ⟨name, transform, nextObject, clock, rfl⟩ | ⟨name, rfl⟩ := hn
  · have hnew := undisturbed_newServer name transform nextObject clock
    obtain ⟨hs, p₀, hp₀, hname₀, hfresh⟩ := exists_fresh_followAll hnew hearlier hopening
    have hgrants : Grants false peer _ (runSteps peer before during rest) :=
      grants_of_undisturbed hs hquiet
    rw [runSteps, List.append_assoc, grants_append] at hgrants
    have houtcome := outcome_of_grants hs hp₀ hname₀ hfresh hcalm hgrants.2 horder hends
    obtain ⟨p, hp⟩ := exists_peer?_of_outcome houtcome
    have hnone : ∀ id, (ofNode (.newServer name transform nextObject clock)).takenFrom id
        ((earlier ++ [opening]) ++ runSteps peer before during rest) = false := by
      intro id
      rw [takenFrom, takersAll_of_undisturbed hnew]
      · rfl
      · exact List.forall_mem_append.2 ⟨isQuiet_of_mem_opened hearlier hopening, hquiet⟩
    rw [followAll_append]
    exact ⟨p, hp, by rw [hnone]; exact houtcome⟩
  · have hnew : (ofNode (.newClient name)).Undisturbed True :=
      ⟨distinct_ofNode _, rfl, .inr ⟨trivial, rfl⟩⟩
    obtain ⟨hs, p₀, hp₀, hname₀, hfresh⟩ := exists_fresh_followAll hnew hearlier hopening
    obtain ⟨q, hq, hqname, hgrants⟩ := exists_grants_of_tended hnew (tended_newClient name) rfl
      hearlier hopening hcalm
    have hpeer := peer?_of_mem (distinct_followAll (distinct_ofNode _) _) hq
    rw [hqname] at hpeer
    exact ⟨q, hpeer, outcome_of_grants hs hp₀ hname₀ hfresh hcalm hgrants horder hends⟩

/-- Signature, name and a line. -/
def crumbs : Bytes :=
  [signature, Text.Utf8.encode "bob", Text.Utf8.encode "hi"].flatMap frameBytes

/-- The first of them arrive, cut inside a prefix. -/
def firstCrumbs : List Step :=
  [.perform (.farEnd "ann" (.arrive (crumbs.take 2)))]

/-- The others arrive, cut inside a payload. -/
def otherCrumbs : List Step :=
  [.perform (.farEnd "ann" (.arrive ((crumbs.drop 2).take 23))), .poll "ann",
    .perform (.farEnd "ann" (.arrive (crumbs.drop 25))), .perform (.farEnd "ann" .finish)]

theorem conversation_crumbs (taken : Bool) :
    conversation taken (frames (crumbs ++ [])) =
      chat taken "bob" [.ok (Text.Utf8.encode "hi")] := by
  have hsizes : ∀ payload ∈ [signature, Text.Utf8.encode "bob", Text.Utf8.encode "hi"],
      payload ≠ [] ∧ payload.length < 0x80000000 := by decide
  rw [crumbs, (readAll_flatMap_frameBytes hsizes []).1, frames_nil]
  rfl

/-- The line behind the name is heard at a server, and at a client. But if another flow of the
client has the typed lines, the run is refused behind the name. -/
theorem exists_outcome_crumbs :
    ((ofNode (.newServer "parley" .stamp 0 .morning)).followAll
      [.perform (.openFlow "ann")]).outcome "ann" (runSteps "ann" firstCrumbs otherCrumbs []) =
        some ⟨some "bob", [("bob", "hi")], .ok ()⟩ ∧
    ((ofNode (.newClient "parley")).followAll
      [.perform (.openFlow "ann")]).outcome "ann" (runSteps "ann" firstCrumbs otherCrumbs []) =
        some ⟨some "bob", [("bob", "hi")], .ok ()⟩ ∧
    ((ofNode (.newClient "parley")).followAll
      (rivalSteps ++ [.perform (.openConnection "ann")])).outcome "ann"
        (runSteps "ann" firstCrumbs otherCrumbs []) =
          some ⟨some "bob", [], .error .inputUnavailable⟩ := by
  have hcalm : ∀ step ∈ firstCrumbs ++ otherCrumbs ++ [], step.IsCalm "ann" := by
    simp [firstCrumbs, otherCrumbs, Step.isCalm_arrive, Step.isCalm_finish, Step.isCalm_poll]
  have horder : InOrder "ann" (firstCrumbs ++ otherCrumbs ++ []) := by
    unfold InOrder
    decide
  have hends : (firstCrumbs ++ otherCrumbs).any (Step.ends "ann") = true := by decide
  refine ⟨?_, ?_, ?_⟩
  · obtain ⟨p, -, houtcome⟩ := exists_outcome_of_run (n := .newServer "parley" .stamp 0 .morning)
      (.inl ⟨_, _, _, _, rfl⟩) (List.forall_mem_nil _) (.inl rfl) hcalm horder hends
    exact houtcome.trans (congrArg some (conversation_crumbs _))
  · obtain ⟨p, hp, houtcome⟩ := exists_outcome_of_run (n := .newClient "parley")
      (.inr ⟨_, rfl⟩) (List.forall_mem_nil _) (.inl rfl) hcalm horder hends
    have hid : p.flow.id = 1 := (Option.some.inj (congrArg (Option.map (·.flow.id)) hp)).symm
    rw [hid] at houtcome
    exact houtcome.trans (congrArg some (conversation_crumbs _))
  · have hearlier : ∀ step ∈ rivalSteps, step.IsQuiet := by simp [rivalSteps, Step.IsQuiet]
    obtain ⟨p, hp, houtcome⟩ := exists_outcome_of_run (n := .newClient "parley")
      (.inr ⟨_, rfl⟩) hearlier (.inr rfl) hcalm horder hends
    have hid : p.flow.id = 3 := (Option.some.inj (congrArg (Option.map (·.flow.id)) hp)).symm
    rw [hid] at houtcome
    exact houtcome.trans (congrArg some (conversation_crumbs _))

end Runs

end Session

end Parley.Chat
