import Mathlib.Data.List.Nodup
import Parley.Chat.Session

/-!
# Steps of a session

Between two actions the runs of a session go on in one fixed order. Most of what holds
of a session does not depend on that order, nor on how far the runs got before the next
action. Here a session takes steps: something is done, or the run of one peer goes on, or it
is given up where it stands.

- `Session.Step`, `Session.follow`, `Session.followAll`: steps, in any order.
- `Session.requests`: what is asked of the node in a step.
- `Session.effect_follow`: the kinds of steps and what each of them changes.
- `Session.exists_steps_actAll`: actions, each with all runs going on after it, are
  steps.
- `Session.Rests`: the run of a peer cannot go on.
-/

namespace Parley.Chat

/-! ## Runs that are given up -/

namespace Peer

/-- Gives the run of a peer up where it stands. A connection is gone with its run. -/
def abandon (p : Peer) : Peer × List Request :=
  match p.presence with
  | .running phase =>
    let (flow, requests) := p.flow.abandon phase
    (if p.handled then { p with flow, presence := .idle }
      else { p with flow := flow.drop, presence := .gone },
      requests)
  | _ => (p, [])

theorem name_abandon (p : Peer) : p.abandon.1.name = p.name := by
  unfold abandon
  split
  · dsimp only
    split <;> rfl
  · rfl

end Peer

namespace Session

open Wire

/-! ## Peers by name -/

/-- No two peers have the same name. -/
def Distinct (s : Session) : Prop :=
  (s.peers.map Peer.name).Nodup

section Peers

variable {s : Session} {p q : Peer} {name : String}

theorem mem_of_peer? (h : s.peer? name = some p) : p ∈ s.peers ∧ p.name = name :=
  ⟨List.mem_of_find?_eq_some h, by simpa using List.find?_some h⟩

theorem eq_of_name_eq (hs : s.Distinct) (hp : p ∈ s.peers) (hq : q ∈ s.peers)
    (h : p.name = q.name) : p = q :=
  List.inj_on_of_nodup_map hs hp hq h

theorem peer?_of_mem (hs : s.Distinct) (hp : p ∈ s.peers) : s.peer? p.name = some p := by
  cases hfound : s.peer? p.name with
  | none =>
    have hnone := List.find?_eq_none.1 hfound p hp
    exact absurd (beq_self_eq_true p.name) hnone
  | some q =>
    obtain ⟨hq, hname⟩ := mem_of_peer? hfound
    rw [eq_of_name_eq hs hq hp hname]

/-- Setting a peer leaves the peers of other names as they are. -/
theorem mem_setPeer : q ∈ (s.setPeer p).peers ↔ q = p ∨ q ∈ s.peers ∧ q.name ≠ p.name := by
  unfold setPeer
  split
  case isTrue hany =>
    obtain ⟨other, hother, hname⟩ := List.any_eq_true.1 hany
    simp only [List.mem_map]
    constructor
    · rintro ⟨r, hr, rfl⟩
      split
      case isTrue => exact .inl rfl
      case isFalse hne => exact .inr ⟨hr, by simpa using hne⟩
    · rintro (rfl | ⟨hq, hne⟩)
      · exact ⟨other, hother, if_pos hname⟩
      · exact ⟨q, hq, if_neg (by simpa using hne)⟩
  case isFalse hnone =>
    have hne : ∀ r ∈ s.peers, r.name ≠ p.name := by
      intro r hr heq
      exact hnone (List.any_eq_true.2 ⟨r, hr, beq_iff_eq.2 heq⟩)
    rw [List.mem_append, List.mem_singleton]
    constructor
    · rintro (hq | rfl)
      · exact .inr ⟨hq, hne q hq⟩
      · exact .inl rfl
    · rintro (rfl | ⟨hq, -⟩)
      · exact .inr rfl
      · exact .inl hq

theorem mem_setPeer_self : p ∈ (s.setPeer p).peers := mem_setPeer.2 (.inl rfl)

theorem mem_setPeer_of_ne (hq : q ∈ s.peers) (h : q.name ≠ p.name) : q ∈ (s.setPeer p).peers :=
  mem_setPeer.2 (.inr ⟨hq, h⟩)

theorem distinct_setPeer (hs : s.Distinct) (p : Peer) : (s.setPeer p).Distinct := by
  unfold Distinct setPeer
  split
  case isTrue =>
    have hnames : (s.peers.map fun other => if other.name == p.name then p else other).map
        Peer.name = s.peers.map Peer.name := by
      rw [List.map_map]
      refine List.map_congr_left fun other _ => ?_
      show (if other.name == p.name then p else other).name = other.name
      split
      case isTrue h => exact (beq_iff_eq.1 h).symm
      case isFalse => rfl
    exact hnames ▸ hs
  case isFalse hnone =>
    rw [List.map_append, List.map_singleton]
    refine List.nodup_append.2 ⟨hs, List.nodup_singleton _, ?_⟩
    intro a ha b hb heq
    obtain ⟨r, hr, rfl⟩ := List.mem_map.1 ha
    rw [List.mem_singleton] at hb
    exact hnone (List.any_eq_true.2 ⟨r, hr, beq_iff_eq.2 (heq.trans hb)⟩)

/-- A peer is put back where it stands. -/
theorem setPeer_eq_append {before after : List Peer} (hs : s.Distinct)
    (hpeers : s.peers = before ++ p :: after) (hname : q.name = p.name) :
    s.setPeer q = { s with peers := before ++ q :: after } := by
  have hnodup : (before.map Peer.name ++ p.name :: after.map Peer.name).Nodup := by
    have h : (s.peers.map Peer.name).Nodup := hs
    rwa [hpeers, List.map_append, List.map_cons] at h
  have hkeep : ∀ r ∈ before ++ after, (if r.name == q.name then q else r) = r := by
    intro r hr
    have hfree := (List.nodup_middle.1 hnodup).notMem
    rw [← List.map_append] at hfree
    refine if_neg fun heq => hfree ?_
    rw [← hname, ← beq_iff_eq.1 heq]
    exact List.mem_map_of_mem hr
  have hany : (s.peers.any fun other => other.name == q.name) = true :=
    List.any_eq_true.2 ⟨p, by simp [hpeers], beq_iff_eq.2 hname.symm⟩
  have hmap : ∀ peers : List Peer, (∀ r ∈ peers, r ∈ before ++ after) →
      (peers.map fun other => if other.name == q.name then q else other) = peers := by
    intro peers hmem
    exact (List.map_congr_left fun r hr => hkeep r (hmem r hr)).trans (List.map_id' peers)
  unfold setPeer
  rw [if_pos hany, hpeers, List.map_append, List.map_cons,
    hmap before fun r hr => List.mem_append_left _ hr,
    hmap after fun r hr => List.mem_append_right _ hr, if_pos (beq_iff_eq.2 hname.symm)]

end Peers

/-! ## Steps -/

/-- A step of a session. -/
inductive Step where
  /-- Something is done; no run goes on by itself. -/
  | perform (action : Action)
  /-- The run of a peer goes on. -/
  | poll (peer : String)
  /-- The run of a peer is given up where it stands. -/
  | abandon (peer : String)

/-- Takes a step. -/
def follow (s : Session) : Step → Session
  | .perform action => (s.perform action).2
  | .poll name =>
    match s.peer? name with
    | some p => s.serve (p.poll s.node).1 (p.poll s.node).2
    | none => s
  | .abandon name =>
    match s.peer? name with
    | some p => s.serve p.abandon.1 p.abandon.2
    | none => s

/-- Takes steps one after the other. -/
def followAll (s : Session) (steps : List Step) : Session :=
  steps.foldl follow s

@[simp] theorem followAll_nil (s : Session) : s.followAll [] = s := rfl

@[simp] theorem followAll_cons (s : Session) (step : Step) (steps : List Step) :
    s.followAll (step :: steps) = (s.follow step).followAll steps :=
  rfl

theorem followAll_append (s : Session) (steps more : List Step) :
    s.followAll (steps ++ more) = (s.followAll steps).followAll more :=
  List.foldl_append

/-- Nothing would change if the run of this peer went on. -/
def Rests (s : Session) (name : String) : Prop :=
  s.follow (.poll name) = s

/-! ## What is asked of the node -/

/-- What a peer of a given name would ask for. -/
def asked (s : Session) (name : String) (f : Peer → List Request) : List Request :=
  match s.peer? name with
  | some p => f p
  | none => []

/-- What is asked of the node in a step, by the flows or from outside. -/
def requests (s : Session) : Step → List Request
  | .poll name => s.asked name fun p => (p.poll s.node).2
  | .abandon name => s.asked name fun p => p.abandon.2
  | .perform (.run name) => s.asked name fun p => (p.run s.nextFlow s.cancelled s.node).2
  | .perform (.runOnce name) => s.asked name fun p =>
    match p.presence with
    | .idle => (p.runOnce s.node).2.2
    | _ => []
  | .perform (.consume sender line) => [.consume sender line]
  | .perform (.broadcast line) => [.broadcast line]
  | .perform _ => []

section Runs

variable {s : Session} {p : Peer} (hs : s.Distinct) (hp : p ∈ s.peers)
include hs hp

/-- A step in which the run of a peer goes on. -/
theorem follow_poll : s.follow (.poll p.name) = s.serve (p.poll s.node).1 (p.poll s.node).2 := by
  rw [follow, peer?_of_mem hs hp]

theorem requests_poll : s.requests (.poll p.name) = (p.poll s.node).2 := by
  rw [requests, asked, peer?_of_mem hs hp]

/-- A step in which a run begins. -/
theorem follow_run : s.follow (.perform (.run p.name)) = s.run p := by
  rw [follow, perform, withPeer, peer?_of_mem hs hp]

theorem requests_run :
    s.requests (.perform (.run p.name)) = (p.run s.nextFlow s.cancelled s.node).2 := by
  rw [requests, asked, peer?_of_mem hs hp]

/-- A step in which a run begins that is given up when it has to wait. -/
theorem perform_runOnce (hidle : p.presence = .idle) :
    s.perform (.runOnce p.name) = s.runOnce p := by
  rw [perform, withIdle, peer?_of_mem hs hp]
  dsimp only
  rw [hidle]

theorem requests_runOnce (hidle : p.presence = .idle) :
    s.requests (.perform (.runOnce p.name)) = (p.runOnce s.node).2.2 := by
  rw [requests, asked, peer?_of_mem hs hp]
  dsimp only
  rw [hidle]

end Runs

/-! ## Kinds of steps -/

/-- What becomes of one peer in a step, what its flow asks of the node, and which number
the next flow gets. -/
inductive Turn (s : Session) (p : Peer) : Step → Peer → List Request → FlowId → Prop
  | poll : Turn s p (.poll p.name) (p.poll s.node).1 (p.poll s.node).2 s.nextFlow
  | abandon : Turn s p (.abandon p.name) p.abandon.1 p.abandon.2 s.nextFlow
  | run :
    Turn s p (.perform (.run p.name)) (p.run s.nextFlow s.cancelled s.node).1
      (p.run s.nextFlow s.cancelled s.node).2
      (if p.isUnnumbered then s.nextFlow + 1 else s.nextFlow)
  | runOnce (hidle : p.presence = .idle) :
    Turn s p (.perform (.runOnce p.name)) (p.runOnce s.node).2.1 (p.runOnce s.node).2.2 s.nextFlow
  | farEnd (event : Stream.FarEvent) :
    Turn s p (.perform (.farEnd p.name event))
      { p with flow := { p.flow with link := p.flow.link.happen event } } [] s.nextFlow
  | handshake (hidle : p.presence = .idle) :
    Turn s p (.perform (.handshake p.name))
      { p with flow := (p.flow.handshake s.node.name).2 } [] s.nextFlow
  | closeFlow (hidle : p.presence = .idle) :
    Turn s p (.perform (.closeFlow p.name)) { p with flow := p.flow.close.2 } [] s.nextFlow
  | requestClose (hhandled : p.handled = true) :
    Turn s p (.perform (.requestClose p.name)) { p with flow := p.flow.requestClose } [] s.nextFlow
  | dropFlow (hfree : p.presence = .idle ∨ p.presence = .connected) :
    Turn s p (.perform (.dropFlow p.name)) { p with flow := p.flow.drop, presence := .gone } []
      s.nextFlow
  | disposeConnection (hfree : p.presence = .connected) :
    Turn s p (.perform (.disposeConnection p.name)) { p with flow := p.flow.drop } [] s.nextFlow

/-- What a step changes. -/
inductive Effect (s : Session) : Step → List Request → Session → Prop
  | still {step : Step} : Effect s step [] s
  | turn {p p' : Peer} {step : Step} {requests : List Request} {next : FlowId}
      (hp : p ∈ s.peers) (hturn : Turn s p step p' requests next) :
      Effect s step requests ({ s with nextFlow := next }.serve p' requests)
  | openFlow (name : String) : Effect s (.perform (.openFlow name)) [] (s.openFlow name).2
  | openConnection (name : String) :
      Effect s (.perform (.openConnection name)) [] (s.openConnection name).2
  | typeLine (line : String) :
      Effect s (.perform (.typeLine line)) [] { s with node := (s.node.typeLine line).2 }
  | endTyping : Effect s (.perform .endTyping) [] { s with node := s.node.endTyping }
  | closeConsole : Effect s (.perform .closeConsole) [] { s with node := s.node.closeConsole }
  | cancel :
      Effect s (.perform .cancel) []
        { s with
          cancelled := true
          peers := s.peers.map fun p => { p with flow := p.flow.cancel } }
  | broadcast (line : String) :
      Effect s (.perform (.broadcast line)) [.broadcast line]
        { s with node := s.node.serve (.broadcast line) }
  | consume (sender line : String) :
      Effect s (.perform (.consume sender line)) [.consume sender line]
        { s with node := s.node.serve (.consume sender line) }
  | openOutbox (name : String) : Effect s (.perform (.openOutbox name)) [] (s.openOutbox name).2
  | nextLine (name : String) : Effect s (.perform (.nextLine name)) [] (s.nextLine name).2
  | closeOutbox (name : String) : Effect s (.perform (.closeOutbox name)) [] (s.closeOutbox name)

/-- An action on a peer has an effect if it has one whenever there is such a peer. -/
theorem effect_withPeer {s : Session} {step : Step} {name : String} {f : Peer → Answer × Session}
    {g : Peer → List Request}
    (h : ∀ p ∈ s.peers, p.name = name → Effect s step (g p) (f p).2) :
    Effect s step (s.asked name g) (s.withPeer name f).2 := by
  unfold withPeer asked
  cases hpeer : s.peer? name with
  | none => exact .still
  | some p =>
    obtain ⟨hp, hname⟩ := mem_of_peer? hpeer
    exact h p hp hname

theorem asked_nil (s : Session) (name : String) : s.asked name (fun _ => []) = [] := by
  unfold asked
  split <;> rfl

/-- The same for an action on a peer whose flow is idle. -/
theorem effect_withIdle {s : Session} {step : Step} {name : String} {f : Peer → Answer × Session}
    {g : Peer → List Request}
    (h : ∀ p ∈ s.peers, p.name = name → p.presence = .idle → Effect s step (g p) (f p).2)
    (hg : ∀ p : Peer, p.presence ≠ .idle → g p = []) :
    Effect s step (s.asked name g) (s.withIdle name f).2 := by
  unfold withIdle asked
  cases hpeer : s.peer? name with
  | none => exact .still
  | some p =>
    obtain ⟨hp, hname⟩ := mem_of_peer? hpeer
    dsimp only
    split
    case h_1 hidle => exact h p hp hname hidle
    case h_2 hbusy =>
      rw [hg p hbusy]
      exact .still

theorem perform_typeLine (s : Session) (line : String) :
    (s.perform (.typeLine line)).2 = { s with node := (s.node.typeLine line).2 } := by
  rcases h : s.node.typeLine line with ⟨_ | accepted, node⟩ <;> simp only [perform, h]

theorem perform_broadcast (s : Session) (line : String) :
    (s.perform (.broadcast line)).2 = { s with node := (s.node.broadcast line).2 } := by
  rcases h : s.node.broadcast line with ⟨_ | count, node⟩ <;> simp only [perform, h]

/-- Every step has one of these effects. -/
theorem effect_follow (s : Session) (step : Step) :
    Effect s step (s.requests step) (s.follow step) := by
  cases step with
  | poll name =>
    cases hpeer : s.peer? name with
    | none =>
      simp only [follow, requests, asked, hpeer]
      exact .still
    | some p =>
      obtain ⟨hp, rfl⟩ := mem_of_peer? hpeer
      simp only [follow, requests, asked, hpeer]
      exact .turn hp .poll
  | abandon name =>
    cases hpeer : s.peer? name with
    | none =>
      simp only [follow, requests, asked, hpeer]
      exact .still
    | some p =>
      obtain ⟨hp, rfl⟩ := mem_of_peer? hpeer
      simp only [follow, requests, asked, hpeer]
      exact .turn hp .abandon
  | perform action =>
    cases action with
    | farEnd name event =>
      show Effect s _ [] _
      rw [← s.asked_nil name]
      refine effect_withPeer fun p hp hname => ?_
      subst hname
      exact .turn hp (.farEnd event)
    | openFlow name => exact .openFlow name
    | openConnection name => exact .openConnection name
    | run name =>
      refine effect_withPeer fun p hp hname => ?_
      subst hname
      exact .turn hp .run
    | runOnce name =>
      refine effect_withIdle (fun p hp hname hidle => ?_) fun p hbusy => ?_
      · subst hname
        rw [hidle]
        exact .turn hp (.runOnce hidle)
      · split
        case h_1 hidle => exact absurd hidle hbusy
        case h_2 => rfl
    | handshake name =>
      show Effect s _ [] _
      rw [← s.asked_nil name]
      refine effect_withIdle (fun p hp hname hidle => ?_) fun _ _ => rfl
      subst hname
      exact .turn hp (.handshake hidle)
    | closeFlow name =>
      show Effect s _ [] _
      rw [← s.asked_nil name]
      refine effect_withIdle (fun p hp hname hidle => ?_) fun _ _ => rfl
      subst hname
      exact .turn hp (.closeFlow hidle)
    | requestClose name =>
      show Effect s _ [] _
      rw [← s.asked_nil name]
      refine effect_withPeer fun p hp hname => ?_
      subst hname
      split
      case isTrue hhandled => exact .turn hp (.requestClose hhandled)
      case isFalse => exact .still
    | dropFlow name =>
      show Effect s _ [] _
      rw [← s.asked_nil name]
      refine effect_withPeer fun p hp hname => ?_
      subst hname
      split
      case h_1 hidle => exact .turn hp (.dropFlow (.inl hidle))
      case h_2 hconnected => exact .turn hp (.dropFlow (.inr hconnected))
      case h_3 => exact .still
    | disposeConnection name =>
      show Effect s _ [] _
      rw [← s.asked_nil name]
      refine effect_withPeer fun p hp hname => ?_
      subst hname
      split
      case h_1 hconnected => exact .turn hp (.disposeConnection hconnected)
      case h_2 => exact .still
    | info name =>
      show Effect s _ [] _
      rw [← s.asked_nil name]
      exact effect_withIdle (fun _ _ _ _ => .still) fun _ _ => rfl
    | typeLine line =>
      show Effect s _ [] (s.perform (.typeLine line)).2
      rw [perform_typeLine]
      exact .typeLine line
    | endTyping => exact .endTyping
    | closeConsole => exact .closeConsole
    | cancel => exact .cancel
    | broadcast line =>
      show Effect s _ [.broadcast line] (s.perform (.broadcast line)).2
      rw [perform_broadcast]
      exact .broadcast line
    | consume sender line => exact .consume sender line
    | openOutbox name => exact .openOutbox name
    | nextLine name => exact .nextLine name
    | closeOutbox name => exact .closeOutbox name

/-! ## Names stay distinct -/

theorem name_afterRun (p : Peer) (result : FlowResult) : (p.afterRun result).name = p.name := by
  unfold Peer.afterRun
  split <;> rfl

theorem name_settle (p : Peer) (progress : Flow.RunProgress) (flow : Flow) :
    (p.settle progress flow).name = p.name := by
  unfold Peer.settle
  split
  · rfl
  · exact name_afterRun _ _

theorem name_poll (p : Peer) (n : Node) : (p.poll n).1.name = p.name := by
  unfold Peer.poll
  split
  · exact name_settle ..
  · rfl

/-- A peer that rests stays as it is, and asks for nothing that would change the node. -/
theorem Rests.poll_eq {s : Session} {p : Peer} (h : s.Rests p.name) (hs : s.Distinct)
    (hp : p ∈ s.peers) : (p.poll s.node).1 = p ∧ s.node.serveAll (p.poll s.node).2 = s.node := by
  have hserve : s.serve (p.poll s.node).1 (p.poll s.node).2 = s := by
    rwa [Rests, follow_poll hs hp] at h
  have hmem : (p.poll s.node).1 ∈ (s.serve (p.poll s.node).1 (p.poll s.node).2).peers :=
    mem_setPeer_self
  rw [hserve] at hmem
  exact ⟨eq_of_name_eq hs hmem hp (name_poll p s.node), congrArg Session.node hserve⟩

theorem name_run (p : Peer) (id : FlowId) (cancelled : Bool) (n : Node) :
    (p.run id cancelled n).1.name = p.name := by
  unfold Peer.run
  split
  · exact name_settle ..
  · split
    · exact name_afterRun ..
    · exact name_settle ..
  · rfl

theorem name_runOnce (p : Peer) (n : Node) : (p.runOnce n).2.1.name = p.name := by
  unfold Peer.runOnce
  split <;> rfl

theorem Turn.name_eq {s : Session} {p p' : Peer} {step : Step} {requests : List Request}
    {next : FlowId} (h : Turn s p step p' requests next) : p'.name = p.name := by
  cases h with
  | poll => exact name_poll ..
  | abandon => exact p.name_abandon
  | run => exact name_run ..
  | runOnce => exact name_runOnce ..
  | farEnd | handshake | closeFlow | requestClose | dropFlow | disposeConnection => rfl

/-! ### Queues opened from outside -/

/-- Only what is asked of the node and the queues known by name make a difference. -/
structure SamePeers (s s' : Session) : Prop where
  peers : s'.peers = s.peers
  cancelled : s'.cancelled = s.cancelled
  node : ∃ requests, s'.node = s.node.serveAll requests

theorem samePeers_closeOutbox (s : Session) (key : String) : s.SamePeers (s.closeOutbox key) := by
  unfold closeOutbox
  split
  case h_1 outbox _ => exact ⟨rfl, rfl, [.closeOutbox outbox], rfl⟩
  case h_2 => exact ⟨rfl, rfl, [], rfl⟩

theorem samePeers_openOutbox (s : Session) (key : String) :
    s.SamePeers (s.openOutbox key).2 := by
  unfold openOutbox
  rcases hopen : s.node.openOutbox s.nextOutbox with ⟨fault | outbox, node⟩
  · obtain rfl : s.node.serve (.openOutbox s.nextOutbox) = node := congrArg Prod.snd hopen
    exact ⟨rfl, rfl, [.openOutbox s.nextOutbox], rfl⟩
  · obtain rfl : s.node.serve (.openOutbox s.nextOutbox) = node := congrArg Prod.snd hopen
    obtain ⟨hpeers, hcancelled, requests, hnode⟩ := samePeers_closeOutbox
      { s with node := s.node.serve (.openOutbox s.nextOutbox), nextOutbox := s.nextOutbox - 1 } key
    exact ⟨hpeers, hcancelled, .openOutbox s.nextOutbox :: requests, hnode⟩

theorem samePeers_nextLine (s : Session) (key : String) : s.SamePeers (s.nextLine key).2 := by
  unfold nextLine Node.nextLine
  split
  case h_1 outbox _ =>
    cases s.node.pending outbox with
    | nil => cases s.node.isEnded outbox <;> exact ⟨rfl, rfl, [], rfl⟩
    | cons line lines => exact ⟨rfl, rfl, [.setPending outbox lines], rfl⟩
  case h_2 => exact ⟨rfl, rfl, [], rfl⟩

theorem SamePeers.distinct {s s' : Session} (h : s.SamePeers s') (hs : s.Distinct) :
    s'.Distinct := by
  rw [Distinct, h.peers]
  exact hs

theorem distinct_follow {s : Session} (hs : s.Distinct) (step : Step) :
    (s.follow step).Distinct := by
  have heffect := s.effect_follow step
  generalize s.requests step = requests, s.follow step = s' at heffect
  cases heffect with
  | still | typeLine | endTyping | closeConsole | broadcast | consume => exact hs
  | turn | openFlow | openConnection => exact distinct_setPeer hs _
  | cancel =>
    show ((s.peers.map _).map Peer.name).Nodup
    rw [List.map_map]
    exact hs
  | openOutbox key => exact (s.samePeers_openOutbox key).distinct hs
  | nextLine key => exact (s.samePeers_nextLine key).distinct hs
  | closeOutbox key => exact (s.samePeers_closeOutbox key).distinct hs

theorem distinct_followAll {s : Session} (hs : s.Distinct) (steps : List Step) :
    (s.followAll steps).Distinct := by
  induction steps generalizing s with
  | nil => exact hs
  | cons step steps ih => exact ih (distinct_follow hs step)

theorem distinct_ofNode (n : Node) : (ofNode n).Distinct := List.nodup_nil

/-! ## Actions are steps -/

/-- Polling the peers of a session in turn is a step for each. -/
theorem followAll_poll {s : Session} {before peers : List Peer} (hs : s.Distinct)
    (hpeers : s.peers = before ++ peers) :
    s.followAll (peers.map fun p => .poll p.name) =
      { s with
        peers := before ++ (pollPeers peers s.node).1
        node := (pollPeers peers s.node).2 } := by
  -- The peers before have gone on already; names tell the others from them.
  induction peers generalizing s before with
  | nil =>
    rw [List.append_nil] at hpeers
    subst hpeers
    simp [pollPeers]
  | cons p peers ih =>
    have hp : p ∈ s.peers := hpeers ▸ List.mem_append_right _ (List.mem_cons_self ..)
    have hfollow : s.follow (.poll p.name) =
        { s with
          node := s.node.serveAll (p.poll s.node).2
          peers := before ++ (p.poll s.node).1 :: peers } := by
      rw [follow_poll hs hp]
      exact setPeer_eq_append (s := { s with node := s.node.serveAll (p.poll s.node).2 }) hs hpeers
        (name_poll p s.node)
    have hs' := distinct_follow hs (.poll p.name)
    rw [hfollow] at hs'
    rw [List.map_cons, followAll_cons, hfollow,
      ih hs' (List.append_cons before (p.poll s.node).1 peers)]
    simp [pollPeers]

theorem exists_steps_poll {s : Session} (hs : s.Distinct) :
    ∃ steps, s.poll = s.followAll steps := by
  have hpolls : s.followAll (s.peers.map fun p => .poll p.name) = s.poll :=
    followAll_poll hs (List.nil_append s.peers).symm
  exact ⟨_, hpolls.symm⟩

/-- An action after which all runs go on is one step, and then steps of those runs. -/
theorem exists_steps_act {s : Session} (hs : s.Distinct) (action : Action) :
    ∃ steps, (s.act action).2 = s.followAll steps := by
  have hperform := distinct_follow hs (.perform action)
  obtain ⟨first, hfirst⟩ := exists_steps_poll hperform
  obtain ⟨second, hsecond⟩ := exists_steps_poll (distinct_followAll hperform first)
  refine ⟨.perform action :: (first ++ second), ?_⟩
  rw [followAll_cons, followAll_append, ← hsecond, ← hfirst]
  rfl

/-- What holds after all steps holds after all actions. -/
theorem exists_steps_actAll {s : Session} (hs : s.Distinct) (actions : List Action) :
    ∃ steps, s.actAll actions = s.followAll steps := by
  induction actions generalizing s with
  | nil => exact ⟨[], rfl⟩
  | cons action actions ih =>
    obtain ⟨first, hfirst⟩ := exists_steps_act hs action
    have hs' : (s.act action).2.Distinct := hfirst ▸ distinct_followAll hs first
    obtain ⟨rest, hrest⟩ := ih hs'
    refine ⟨first ++ rest, ?_⟩
    rw [followAll_append, ← hfirst]
    exact hrest

end Session

end Parley.Chat
