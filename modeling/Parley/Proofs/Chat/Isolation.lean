import Mathlib.Data.List.Induction
import Mathlib.Data.List.Infix
import Parley.Proofs.Chat.Life
import Parley.Proofs.Chat.Renaming

/-!
# Isolation

A peer that never completes its handshake does not disturb the others. Leave out all that
concerns it, and the rest of the session goes on as before: the same bytes are written, the
same runs end with the same results, and the same actions answer the same, but that flows
may have other numbers.

- `Session.without`: steps without those that concern one peer.
- `Session.Alike`: sessions that differ in one peer and in the numbers of flows only.
- `Session.Alike.follow_rogue`: what concerns this peer, while it has no name, changes
  nothing else.
- `Session.Alike.follow`: any other step can be taken in both sessions, which stay alike.
- `Session.exists_isolated`: whole runs, by induction on their steps.
-/

namespace Parley.Chat.Session

open Wire

variable {R R' : FlowId → FlowId → Prop} {rogue name : String} {s t : Session} {p q : Peer}
  {step : Step}

/-! ## Peers by name -/

theorem peer?_setPeer (s : Session) (p : Peer) (name : String) :
    (s.setPeer p).peer? name = if p.name = name then some p else s.peer? name := by
  unfold setPeer
  split
  case isTrue hany =>
    -- A peer is replaced by one of its own name, so that the same place is found.
    have hsame : ((fun other : Peer => other.name == name) ∘ fun other =>
        if other.name == p.name then p else other) = fun other => other.name == name := by
      funext other
      show ((if other.name == p.name then p else other).name == name) = (other.name == name)
      split
      case isTrue h => rw [beq_iff_eq.1 h]
      case isFalse => rfl
    rw [peer?, List.find?_map, hsame]
    show (s.peer? name).map _ = _
    cases hfound : s.peer? name with
    | none =>
      obtain ⟨other, hother, heq⟩ := List.any_eq_true.1 hany
      refine (if_neg fun hname => ?_).symm
      exact List.find?_eq_none.1 hfound other hother (hname ▸ heq)
    | some found =>
      obtain ⟨-, hname⟩ := mem_of_peer? hfound
      subst hname
      show some (if (found.name == p.name) = true then p else found) = _
      rw [apply_ite some]
      exact if_congr (beq_iff_eq.trans eq_comm) rfl rfl
  case isFalse hnone =>
    rw [peer?, List.find?_append]
    show (s.peer? name).or (List.find? _ [p]) = _
    split
    case isTrue hname =>
      have hfree : s.peer? name = none := by
        refine List.find?_eq_none.2 fun other hother heq => hnone ?_
        exact List.any_eq_true.2 ⟨other, hother, hname ▸ heq⟩
      rw [hfree, List.find?_singleton, if_pos (beq_iff_eq.2 hname)]
      rfl
    case isFalse hname =>
      rw [List.find?_singleton, if_neg fun heq => hname (beq_iff_eq.1 heq), Option.or_none]

theorem peer?_cancel (s : Session) (name : String) :
    (s.perform .cancel).2.peer? name =
      (s.peer? name).map fun p => { p with flow := p.flow.cancel } :=
  List.find?_map

theorem run_of_isUnnumbered (h : p.isUnnumbered = true) :
    s.run p = { s with nextFlow := s.nextFlow + 1 }.serve
      (p.run s.nextFlow s.cancelled s.node).1 (p.run s.nextFlow s.cancelled s.node).2 := by
  unfold run
  rw [if_pos h]

theorem run_of_not_isUnnumbered (h : p.isUnnumbered = false) :
    s.run p = s.serve (p.run s.nextFlow s.cancelled s.node).1
      (p.run s.nextFlow s.cancelled s.node).2 := by
  unfold run
  rw [if_neg (by rw [h]; decide)]

/-! ## Sessions that differ in one peer -/

/-- The peer that a step concerns: its flow is the subject, or one asks what is known of it. -/
def Step.target : Step → Option String
  | .perform (.info peer) => some peer
  | step => step.subject

theorem Turn.target_eq {p' : Peer} {requests : List Request} {next : FlowId}
    (h : Turn s p step p' requests next) : step.target = some p.name := by
  cases h <;> rfl

/-- Numbers go up. -/
theorem Turn.le_next {p' : Peer} {requests : List Request} {next : FlowId}
    (h : Turn s p step p' requests next) : s.nextFlow ≤ next := by
  cases h with
  | run =>
    split
    · exact Int.le_add_one (Int.le_refl _)
    · exact Int.le_refl _
  | poll | abandon | runOnce | farEnd | handshake | closeFlow | requestClose | dropFlow
  | disposeConnection => exact Int.le_refl _

/-- Steps without those that concern one peer. -/
def without (peer : String) (steps : List Step) : List Step :=
  steps.filter fun step => step.target ≠ some peer

/-- No flow of a peer ever completes its handshake. -/
def NeverNamed (peer : String) (s : Session) (steps : List Step) : Prop :=
  ∀ before, before <+: steps →
    ∀ p ∈ (s.followAll before).peers, p.name = peer → p.flow.remoteName = none

/-- Sessions that cannot be told apart, if one does not look at one peer nor at the numbers
of flows. -/
structure Seem (R : FlowId → FlowId → Prop) (rogue : String) (t s : Session) : Prop where
  peers : ∀ name ≠ rogue, Option.Rel (Peer.Alike R) (t.peer? name) (s.peer? name)
  size : s.node.router.size = t.node.router.size

/-- Sessions that differ in one peer and in the numbers of flows only. -/
structure Alike (R : FlowId → FlowId → Prop) (rogue : String) (t s : Session) : Prop where
  matching : Matches R
  given : ∀ a b, R a b → a < t.nextFlow ∧ b < s.nextFlow
  /-- Numbers that no flow gets are the same on both sides. -/
  unnumbered : ∀ a, a ≤ 0 → R a a
  node : t.node.Alike R s.node
  cancelled : s.cancelled = t.cancelled
  outboxes : s.outboxes = t.outboxes
  nextOutbox : s.nextOutbox = t.nextOutbox
  below : t.nextOutbox ≤ 0
  peers : ∀ name ≠ rogue, Option.Rel (Peer.Alike R) (t.peer? name) (s.peer? name)

/-- Answers that differ in the numbers of flows only. -/
inductive Answer.Alike (R : FlowId → FlowId → Prop) : Answer → Answer → Prop
  | opened {id id' : FlowId} (hid : R id id') : Answer.Alike R (.opened id) (.opened id')
  | same {answer : Answer} (h : ∀ id, answer ≠ .opened id) : Answer.Alike R answer answer

theorem Answer.Alike.mono {answer answer' : Answer} (h : answer.Alike R answer')
    (hR : ∀ a b, R a b → R' a b) : answer.Alike R' answer' := by
  cases h with
  | opened hid => exact .opened (hR _ _ hid)
  | same h => exact .same h

theorem rel_mono {peer peer' : Option Peer} (h : Option.Rel (Peer.Alike R) peer peer')
    (hR : ∀ a b, R a b → R' a b) : Option.Rel (Peer.Alike R') peer peer' := by
  cases h with
  | none => exact .none
  | some h => exact .some (h.mono hR)

theorem Seem.mono (h : Seem R rogue t s) (hR : ∀ a b, R a b → R' a b) : Seem R' rogue t s :=
  ⟨fun name hname => rel_mono (h.peers name hname) hR, h.size⟩

/-- What alike sessions come to in a step: they stay alike, perhaps with more numbers that
stand for each other, and the answers are. -/
def Stays (R : FlowId → FlowId → Prop) (rogue : String) (result result' : Answer × Session) :
    Prop :=
  ∃ R', (∀ a b, R a b → R' a b) ∧ result.1.Alike R' result'.1 ∧ Alike R' rogue result.2 result'.2

namespace Alike

theorem seem (h : Alike R rogue t s) : Seem R rogue t s :=
  ⟨h.peers, h.node.router_alike.size_eq⟩

theorem stays {answer : Answer} (h : Alike R rogue t s) (hanswer : ∀ id, answer ≠ .opened id) :
    Stays R rogue (answer, t) (answer, s) :=
  ⟨R, fun _ _ h => h, .same hanswer, h⟩

/-- A server is alike itself, before anything was done. -/
theorem ofNode (rogue : String) (nodeName : String) (transform : Transform)
    (nextObject : Formula.ObjectId) (clock : Clock) :
    Alike (fun a b => a = b ∧ a ≤ 0) rogue
      (ofNode (.newServer nodeName transform nextObject clock))
      (ofNode (.newServer nodeName transform nextObject clock)) where
  matching := by
    rintro a b a' b' ⟨rfl, -⟩ ⟨rfl, -⟩
    exact Iff.rfl
  given := by
    rintro a b ⟨rfl, ha⟩
    have hfirst : a < 1 := Int.lt_of_le_of_lt ha Int.zero_lt_one
    exact ⟨hfirst, hfirst⟩
  unnumbered a ha := ⟨rfl, ha⟩
  node := .newServer _ nodeName transform nextObject clock
  cancelled := rfl
  outboxes := rfl
  nextOutbox := rfl
  below := show firstOutbox ≤ 0 by decide
  peers _ _ := .none

/-! ### What keeps sessions alike -/

theorem setNode {n n' : Node} (h : Alike R rogue t s) (hn : n.Alike R n') :
    Alike R rogue { t with node := n } { s with node := n' } :=
  { h with node := hn }

theorem setPeer (h : Alike R rogue t s) (hp : p.Alike R q) :
    Alike R rogue (t.setPeer p) (s.setPeer q) :=
  { h with
    peers := fun name hname => by
      rw [peer?_setPeer, peer?_setPeer, hp.name_eq]
      split
      · exact .some hp
      · exact h.peers name hname }

/-- The one peer does not matter. -/
theorem setPeer_rogue (h : Alike R rogue t s) (hp : p.name = rogue) :
    Alike R rogue t (s.setPeer p) :=
  { h with
    peers := fun name hname => by
      rw [peer?_setPeer, if_neg fun heq => hname (heq.symm.trans hp)]
      exact h.peers name hname }

/-- It may use numbers up. -/
theorem setNext {next : FlowId} (h : Alike R rogue t s) (hnext : s.nextFlow ≤ next) :
    Alike R rogue t { s with nextFlow := next } :=
  { h with
    given := fun a b hab => by
      obtain ⟨ha, hb⟩ := h.given a b hab
      exact ⟨ha, Int.lt_of_lt_of_le hb hnext⟩ }

theorem serve {result result' : Peer × List Request} (h : Alike R rogue t s)
    (hturns : Peer.AlikeTurns R result result') :
    Alike R rogue (t.serve result.1 result.2) (s.serve result'.1 result'.2) :=
  (h.setNode (h.node.serveAll h.matching hturns.requests)).setPeer hturns.peer

/-- The next numbers may stand for each other. -/
theorem exists_extend (h : Alike R rogue t s) :
    ∃ R', (∀ a b, R a b → R' a b) ∧ R' t.nextFlow s.nextFlow ∧
      Alike R' rogue { t with nextFlow := t.nextFlow + 1 }
        { s with nextFlow := s.nextFlow + 1 } := by
  -- Both numbers are higher than all that were given, and cannot clash with one of them.
  have hold : ∀ a b, R a b → R a b ∨ a = t.nextFlow ∧ b = s.nextFlow := fun _ _ => .inl
  refine ⟨fun a b => R a b ∨ a = t.nextFlow ∧ b = s.nextFlow, hold, .inr ⟨rfl, rfl⟩, ?_⟩
  exact
    { h with
      matching := by
        rintro a b a' b' (hab | ⟨rfl, rfl⟩) (hab' | ⟨rfl, rfl⟩)
        · exact h.matching hab hab'
        · obtain ⟨ha, hb⟩ := h.given a b hab
          exact iff_of_false (Int.ne_of_lt ha) (Int.ne_of_lt hb)
        · obtain ⟨ha, hb⟩ := h.given a' b' hab'
          exact iff_of_false (Int.ne_of_gt ha) (Int.ne_of_gt hb)
        · exact iff_of_true rfl rfl
      given := by
        rintro a b (hab | ⟨rfl, rfl⟩)
        · obtain ⟨ha, hb⟩ := h.given a b hab
          exact ⟨Int.lt_add_one_of_le (Int.le_of_lt ha), Int.lt_add_one_of_le (Int.le_of_lt hb)⟩
        · exact ⟨Int.lt_succ _, Int.lt_succ _⟩
      unnumbered := fun a ha => .inl (h.unnumbered a ha)
      node := h.node.mono hold
      peers := fun name hname => rel_mono (h.peers name hname) hold }

/-! ### Steps that do not concern the one peer -/

theorem withPeer {f g : Peer → Answer × Session} (h : Alike R rogue t s) (hname : name ≠ rogue)
    (hfg : ∀ p q, p.Alike R q → Stays R rogue (f p) (g q)) :
    Stays R rogue (t.withPeer name f) (s.withPeer name g) := by
  have hrel := h.peers name hname
  unfold Session.withPeer
  generalize t.peer? name = peer, s.peer? name = peer' at hrel
  cases hrel with
  | none => exact h.stays fun _ => Answer.noConfusion
  | some hp => exact hfg _ _ hp

theorem withIdle {f g : Peer → Answer × Session} (h : Alike R rogue t s) (hname : name ≠ rogue)
    (hfg : ∀ p q, p.Alike R q → Stays R rogue (f p) (g q)) :
    Stays R rogue (t.withIdle name f) (s.withIdle name g) := by
  have hrel := h.peers name hname
  unfold Session.withIdle
  generalize t.peer? name = peer, s.peer? name = peer' at hrel
  cases hrel with
  | none => exact h.stays fun _ => Answer.noConfusion
  | @some p q hp =>
    dsimp only
    rw [hp.presence_eq]
    cases p.presence with
    | idle => exact hfg p q hp
    | connected | running | gone => exact h.stays fun _ => Answer.noConfusion

theorem openFlow (h : Alike R rogue t s) (name : String) :
    Stays R rogue (t.openFlow name) (s.openFlow name) := by
  obtain ⟨R', hR, hnext, h'⟩ := h.exists_extend
  have hopened : Peer.Alike R'
      { name, flow := .create t.nextFlow .idle t.cancelled, handled := true, presence := .idle,
        result := none }
      { name, flow := .create s.nextFlow .idle s.cancelled, handled := true, presence := .idle,
        result := none } := by
    rw [h.cancelled]
    exact .withId hnext
  exact ⟨R', hR, .opened hnext, h'.setPeer hopened⟩

theorem openConnection (h : Alike R rogue t s) (name : String) :
    Stays R rogue (t.openConnection name) (s.openConnection name) := by
  have hopened : Peer.Alike R
      { name, flow := .create 0 .idle t.cancelled, handled := false, presence := .connected,
        result := none }
      { name, flow := .create 0 .idle s.cancelled, handled := false, presence := .connected,
        result := none } := by
    rw [h.cancelled]
    exact .withId (h.unnumbered 0 (Int.le_refl 0))
  exact stays (h.setPeer hopened) fun _ => Answer.noConfusion

/-- Connections that become flows get the next numbers. -/
theorem run (h : Alike R rogue t s) (hp : p.Alike R q) :
    Stays R rogue (.nothing, t.run p) (.nothing, s.run q) := by
  have hsame := hp.isUnnumbered_eq
  cases hnumber : p.isUnnumbered with
  | false =>
    rw [run_of_not_isUnnumbered hnumber, run_of_not_isUnnumbered (hsame.trans hnumber), h.cancelled]
    have hturns : Peer.AlikeTurns R (p.run t.nextFlow t.cancelled t.node)
        (q.run s.nextFlow t.cancelled s.node) :=
      hp.run h.matching h.node t.cancelled fun hnumber' => nomatch hnumber.symm.trans hnumber'
    exact stays (h.serve hturns) fun _ => Answer.noConfusion
  | true =>
    obtain ⟨R', hR, hnext, h'⟩ := h.exists_extend
    rw [run_of_isUnnumbered hnumber, run_of_isUnnumbered (hsame.trans hnumber)]
    have hturns : Peer.AlikeTurns R' (p.run t.nextFlow t.cancelled t.node)
        (q.run s.nextFlow s.cancelled s.node) := by
      rw [h.cancelled]
      exact (hp.mono hR).run h'.matching h'.node t.cancelled fun _ => hnext
    exact ⟨R', hR, .same fun _ => Answer.noConfusion, h'.serve hturns⟩

theorem closeOutbox (h : Alike R rogue t s) (name : String) :
    Alike R rogue (t.closeOutbox name) (s.closeOutbox name) := by
  have hlookup : s.outboxes.lookup name = t.outboxes.lookup name := by rw [h.outboxes]
  unfold Session.closeOutbox
  rw [hlookup]
  split
  case h_1 outbox _ =>
    exact
      { h with
        node := h.node.closeOutbox h.matching outbox
        outboxes := congrArg (List.filter _) h.outboxes }
  case h_2 => exact h

theorem pushOutbox (h : Alike R rogue t s) (entry : String × Outbox) :
    Alike R rogue { t with outboxes := entry :: t.outboxes }
      { s with outboxes := entry :: s.outboxes } :=
  { h with outboxes := congrArg (entry :: ·) h.outboxes }

theorem openOutbox (h : Alike R rogue t s) (name : String) :
    Stays R rogue (t.openOutbox name) (s.openOutbox name) := by
  have hnumber : R t.nextOutbox s.nextOutbox := by
    rw [h.nextOutbox]
    exact h.unnumbered t.nextOutbox h.below
  obtain ⟨houtbox, hopened⟩ := h.node.openOutbox h.matching hnumber
  unfold Session.openOutbox
  generalize t.node.openOutbox t.nextOutbox = opened, s.node.openOutbox s.nextOutbox = opened'
    at houtbox hopened
  obtain ⟨outcome, node⟩ := opened
  obtain ⟨outcome', node'⟩ := opened'
  dsimp only at houtbox hopened
  subst houtbox
  cases outcome' with
  | error fault => exact stays (h.setNode hopened) fun _ => Answer.noConfusion
  | ok outbox =>
    have htaken : Alike R rogue { t with node, nextOutbox := t.nextOutbox - 1 }
        { s with node := node', nextOutbox := s.nextOutbox - 1 } :=
      { h with
        node := hopened
        nextOutbox := congrArg (· - 1) h.nextOutbox
        below := Int.le_trans (Int.sub_le_self _ (by decide)) h.below }
    exact stays ((htaken.closeOutbox name).pushOutbox (name, outbox)) fun _ => Answer.noConfusion

theorem nextLine (h : Alike R rogue t s) (name : String) :
    Stays R rogue (t.nextLine name) (s.nextLine name) := by
  have hlookup : s.outboxes.lookup name = t.outboxes.lookup name := by rw [h.outboxes]
  unfold Session.nextLine
  rw [hlookup]
  split
  case h_1 outbox _ =>
    obtain ⟨hline, hnode⟩ := h.node.nextLine outbox
    generalize t.node.nextLine outbox = result, s.node.nextLine outbox = result' at hline hnode
    obtain ⟨line, node⟩ := result
    obtain ⟨line', node'⟩ := result'
    dsimp only at hline hnode
    subst hline
    cases line' <;> exact stays (h.setNode hnode) fun _ => Answer.noConfusion
  case h_2 => exact h.stays fun _ => Answer.noConfusion

theorem typeLine (h : Alike R rogue t s) (line : String) :
    Stays R rogue (t.perform (.typeLine line)) (s.perform (.typeLine line)) := by
  obtain ⟨htaken, hnode⟩ := h.node.typeLine line
  unfold Session.perform
  dsimp only
  generalize t.node.typeLine line = result, s.node.typeLine line = result' at htaken hnode
  obtain ⟨taken, node⟩ := result
  obtain ⟨taken', node'⟩ := result'
  dsimp only at htaken hnode
  subst htaken
  cases taken' <;> exact stays (h.setNode hnode) fun _ => Answer.noConfusion

theorem broadcast (h : Alike R rogue t s) (line : String) :
    Stays R rogue (t.perform (.broadcast line)) (s.perform (.broadcast line)) := by
  obtain ⟨hcount, hnode⟩ := h.node.broadcast line
  unfold Session.perform
  dsimp only
  generalize t.node.broadcast line = result, s.node.broadcast line = result' at hcount hnode
  obtain ⟨count, node⟩ := result
  obtain ⟨count', node'⟩ := result'
  dsimp only at hcount hnode
  subst hcount
  cases count' <;> exact stays (h.setNode hnode) fun _ => Answer.noConfusion

theorem cancel (h : Alike R rogue t s) :
    Stays R rogue (t.perform .cancel) (s.perform .cancel) := by
  have hpeers : ∀ name ≠ rogue, Option.Rel (Peer.Alike R) ((t.perform .cancel).2.peer? name)
      ((s.perform .cancel).2.peer? name) := by
    intro name hname
    have hrel := h.peers name hname
    rw [peer?_cancel, peer?_cancel]
    generalize t.peer? name = peer, s.peer? name = peer' at hrel
    cases hrel with
    | none => exact .none
    | some hp =>
      obtain ⟨hid⟩ := hp
      exact .some (.withId hid)
  have hcancelled : Alike R rogue (t.perform .cancel).2 (s.perform .cancel).2 :=
    { h with cancelled := rfl, peers := hpeers }
  exact hcancelled.stays fun _ => Answer.noConfusion

theorem farEnd (h : Alike R rogue t s) (hname : name ≠ rogue) (event : Stream.FarEvent) :
    Stays R rogue (t.perform (.farEnd name event)) (s.perform (.farEnd name event)) := by
  refine h.withPeer hname fun p q hp => ?_
  obtain ⟨hid⟩ := hp
  exact stays (h.setPeer (.withId hid)) fun _ => Answer.noConfusion

theorem runOnce (h : Alike R rogue t s) (hp : p.Alike R q) :
    Stays R rogue (t.runOnce p) (s.runOnce q) := by
  obtain ⟨hresult, hturns⟩ := hp.runOnce h.matching h.node
  unfold Session.runOnce
  dsimp only
  rw [hresult]
  exact stays (h.serve hturns) fun _ => Answer.noConfusion

/-- A handshake neither reads nor changes the number of its flow. -/
theorem handshake (h : Alike R rogue t s) (hname : name ≠ rogue) :
    Stays R rogue (t.perform (.handshake name)) (s.perform (.handshake name)) := by
  refine h.withIdle hname fun p q hp => ?_
  obtain @⟨id, hid⟩ := hp
  rw [show (p.withId id).flow = p.flow.withId id from rfl, h.node.name_eq, Flow.handshake_withId]
  have hshaken : R (p.flow.handshake t.node.name).2.id id := by
    rw [Flow.id_handshake]
    exact hid
  exact stays (h.setPeer (.withId hshaken)) fun _ => Answer.noConfusion

theorem closeFlow (h : Alike R rogue t s) (hname : name ≠ rogue) :
    Stays R rogue (t.perform (.closeFlow name)) (s.perform (.closeFlow name)) := by
  refine h.withIdle hname fun p q hp => ?_
  obtain @⟨id, hid⟩ := hp
  rw [show (p.withId id).flow = p.flow.withId id from rfl, Flow.close_withId]
  have hclosed : R p.flow.close.2.id id := by
    rw [p.flow.ends_close.id]
    exact hid
  dsimp only
  cases p.flow.close.1 <;> exact stays (h.setPeer (.withId hclosed)) fun _ => Answer.noConfusion

theorem requestClose (h : Alike R rogue t s) (hname : name ≠ rogue) :
    Stays R rogue (t.perform (.requestClose name)) (s.perform (.requestClose name)) := by
  refine h.withPeer hname fun p q hp => ?_
  rw [hp.handled_eq]
  obtain ⟨hid⟩ := hp
  split
  · exact stays (h.setPeer (.withId hid)) fun _ => Answer.noConfusion
  · exact h.stays fun _ => Answer.noConfusion

theorem dropFlow (h : Alike R rogue t s) (hname : name ≠ rogue) :
    Stays R rogue (t.perform (.dropFlow name)) (s.perform (.dropFlow name)) := by
  refine h.withPeer hname fun p q hp => ?_
  rw [hp.presence_eq]
  obtain ⟨hid⟩ := hp
  split
  · exact stays (h.setPeer (.withId hid)) fun _ => Answer.noConfusion
  · exact stays (h.setPeer (.withId hid)) fun _ => Answer.noConfusion
  · exact h.stays fun _ => Answer.noConfusion

theorem disposeConnection (h : Alike R rogue t s) (hname : name ≠ rogue) :
    Stays R rogue (t.perform (.disposeConnection name)) (s.perform (.disposeConnection name)) := by
  refine h.withPeer hname fun p q hp => ?_
  rw [hp.presence_eq]
  obtain ⟨hid⟩ := hp
  split
  · exact stays (h.setPeer (.withId hid)) fun _ => Answer.noConfusion
  · exact h.stays fun _ => Answer.noConfusion

/-- What is known of a flow does not include its number. -/
theorem info (h : Alike R rogue t s) (hname : name ≠ rogue) :
    Stays R rogue (t.perform (.info name)) (s.perform (.info name)) := by
  refine h.withIdle hname fun p q hp => ?_
  have hinfo : s.infoOf q = t.infoOf p := by
    obtain ⟨-⟩ := hp
    unfold infoOf
    rw [h.node.name_eq]
    rfl
  rw [hinfo]
  exact h.stays fun _ => Answer.noConfusion

theorem consume (h : Alike R rogue t s) (sender line : String) :
    Stays R rogue (t.perform (.consume sender line)) (s.perform (.consume sender line)) := by
  have habout : Request.IsAbout .typed (.consume sender line) := trivial
  exact stays (h.setNode (h.node.serve h.matching (.same habout))) fun _ => Answer.noConfusion

/-- Whatever is done that does not concern the one peer, sessions stay alike. -/
theorem perform {action : Action} (h : Alike R rogue t s)
    (hother : Step.target (.perform action) ≠ some rogue) :
    Stays R rogue (t.perform action) (s.perform action) := by
  have hname : ∀ {name}, some name ≠ some rogue → name ≠ rogue := fun hne heq =>
    hne (congrArg some heq)
  cases action with
  | farEnd name event => exact h.farEnd (hname hother) event
  | openFlow name => exact h.openFlow name
  | openConnection name => exact h.openConnection name
  | run name => exact h.withPeer (hname hother) fun p q hp => h.run hp
  | runOnce name => exact h.withIdle (hname hother) fun p q hp => h.runOnce hp
  | handshake name => exact h.handshake (hname hother)
  | closeFlow name => exact h.closeFlow (hname hother)
  | requestClose name => exact h.requestClose (hname hother)
  | dropFlow name => exact h.dropFlow (hname hother)
  | disposeConnection name => exact h.disposeConnection (hname hother)
  | info name => exact h.info (hname hother)
  | typeLine line => exact h.typeLine line
  | endTyping => exact stays (h.setNode h.node.endTyping) fun _ => Answer.noConfusion
  | closeConsole => exact stays (h.setNode h.node.closeConsole) fun _ => Answer.noConfusion
  | cancel => exact h.cancel
  | broadcast line => exact h.broadcast line
  | consume sender line => exact h.consume sender line
  | openOutbox name => exact h.openOutbox name
  | nextLine name => exact h.nextLine name
  | closeOutbox name => exact stays (h.closeOutbox name) fun _ => Answer.noConfusion

/-- The same when the run of another peer goes on. -/
theorem poll (h : Alike R rogue t s) (hname : name ≠ rogue) :
    Alike R rogue (t.follow (.poll name)) (s.follow (.poll name)) := by
  have hrel := h.peers name hname
  dsimp only [follow]
  generalize t.peer? name = peer, s.peer? name = peer' at hrel
  cases hrel with
  | none => exact h
  | some hp => exact h.serve (hp.poll h.matching h.node)

/-- The same when the run of another peer is given up. -/
theorem abandon (h : Alike R rogue t s) (hname : name ≠ rogue) :
    Alike R rogue (t.follow (.abandon name)) (s.follow (.abandon name)) := by
  have hrel := h.peers name hname
  dsimp only [follow]
  generalize t.peer? name = peer, s.peer? name = peer' at hrel
  cases hrel with
  | none => exact h
  | some hp => exact h.serve hp.abandon

/-- A step that does not concern the one peer can be taken in both sessions. -/
theorem exists_follow (h : Alike R rogue t s) (hother : step.target ≠ some rogue) :
    ∃ R', (∀ a b, R a b → R' a b) ∧
      (∀ action, step = .perform action →
        Answer.Alike R' (t.perform action).1 (s.perform action).1) ∧
      Alike R' rogue (t.follow step) (s.follow step) := by
  cases step with
  | poll name =>
    have h' := h.poll fun heq => hother (congrArg some heq)
    exact ⟨R, fun _ _ h => h, fun _ heq => (nomatch heq), h'⟩
  | abandon name =>
    have h' := h.abandon fun heq => hother (congrArg some heq)
    exact ⟨R, fun _ _ h => h, fun _ heq => (nomatch heq), h'⟩
  | perform action =>
    obtain ⟨R', hR, hanswer, h'⟩ := h.perform hother
    refine ⟨R', hR, fun other heq => ?_, h'⟩
    cases heq
    exact hanswer

/-! ### Steps that concern it -/

theorem follow_rogue (h : Alike R rogue t s) (hs : s.Steady name)
    (hrogue : step.target = some rogue)
    (hnameless : ∀ p ∈ (s.follow step).peers, p.name = rogue → p.flow.remoteName = none) :
    Alike R rogue t (s.follow step) := by
  have heffect := s.effect_follow step
  generalize s.requests step = requests, s.follow step = s' at heffect hnameless
  cases heffect with
  | still => exact h
  | @turn p p' _ _ next hp hturn =>
    have hname : p'.name = rogue := by
      rw [hturn.name_eq]
      exact Option.some.inj (hturn.target_eq.symm.trans hrogue)
    -- While it has no name, its flow asks nothing of the node.
    have hfollows := hturn.follows hs.named (hs.peers p hp)
    obtain rfl := hfollows.silent (hnameless p' mem_setPeer_self hname)
    exact (h.setNext hturn.le_next).setPeer_rogue hname
  | openFlow other =>
    have hname : other = rogue := Option.some.inj hrogue
    exact (h.setNext (Int.le_add_one (Int.le_refl _))).setPeer_rogue hname
  | openConnection other => exact h.setPeer_rogue (Option.some.inj hrogue)
  | typeLine | endTyping | closeConsole | cancel | broadcast | consume | openOutbox | nextLine
  | closeOutbox => exact nomatch hrogue

end Alike

/-! ## Whole runs -/

/-- A run of a session with one peer, and the same run without it, as far as the numbers `R`
stand for each other. -/
structure Isolated (R : FlowId → FlowId → Prop) (rogue : String) (s : Session)
    (steps : List Step) : Prop where
  states : ∀ before, before <+: steps →
    Seem R rogue (s.followAll (without rogue before)) (s.followAll before)
  answers : ∀ before action, before ++ [.perform action] <+: steps →
    Step.target (.perform action) ≠ some rogue →
      Answer.Alike R ((s.followAll (without rogue before)).perform action).1
        ((s.followAll before).perform action).1

theorem Isolated.mono {steps : List Step} (h : Isolated R rogue s steps)
    (hR : ∀ a b, R a b → R' a b) : Isolated R' rogue s steps :=
  ⟨fun before hbefore => (h.states before hbefore).mono hR,
    fun before action hbefore hother => (h.answers before action hbefore hother).mono hR⟩

/-- One more step. -/
theorem Isolated.concat {steps : List Step} (h : Isolated R rogue s steps)
    (hstate : Seem R rogue (s.followAll (without rogue (steps ++ [step])))
      (s.followAll (steps ++ [step])))
    (hanswer : ∀ action, step = .perform action → step.target ≠ some rogue →
      Answer.Alike R ((s.followAll (without rogue steps)).perform action).1
        ((s.followAll steps).perform action).1) :
    Isolated R rogue s (steps ++ [step]) where
  states before hbefore := by
    rcases List.prefix_concat_iff.1 hbefore with rfl | hbefore
    · exact hstate
    · exact h.states before hbefore
  answers before action hbefore hother := by
    rcases List.prefix_concat_iff.1 hbefore with heq | hbefore
    · obtain ⟨rfl, hstep⟩ := List.append_inj' heq rfl
      obtain rfl := List.singleton_inj.1 hstep
      exact hanswer action rfl hother
    · exact h.answers before action hbefore hother

theorem without_concat_of_eq {steps : List Step} (h : step.target = some rogue) :
    without rogue (steps ++ [step]) = without rogue steps := by
  have hfalse : decide (step.target ≠ some rogue) = false := decide_eq_false (not_not_intro h)
  rw [without, List.filter_append, List.filter_singleton, hfalse]
  exact List.append_nil _

theorem without_concat_of_ne {steps : List Step} (h : step.target ≠ some rogue) :
    without rogue (steps ++ [step]) = without rogue steps ++ [step] := by
  rw [without, List.filter_append, List.filter_singleton, decide_eq_true h]
  rfl

theorem exists_isolated_of_alike (hs : s.Steady name) (h : Alike R rogue s s) (steps : List Step)
    (hnever : NeverNamed rogue s steps) :
    ∃ R', Alike R' rogue (s.followAll (without rogue steps)) (s.followAll steps) ∧
      Isolated R' rogue s steps := by
  -- The last step comes after all that was compared before, which more numbers do not change.
  induction steps using List.reverseRecOn with
  | nil =>
    refine ⟨R, h, ⟨fun before hbefore => ?_, fun before action hbefore => ?_⟩⟩
    · rw [List.prefix_nil.1 hbefore]
      exact h.seem
    · exact absurd (List.prefix_nil.1 hbefore) (by simp)
  | append_singleton steps step ih =>
    have hbefore : steps <+: steps ++ [step] := List.prefix_append _ _
    obtain ⟨R, h, hisolated⟩ := ih fun before hbefore' => hnever before (hbefore'.trans hbefore)
    have hlast : (s.followAll (steps ++ [step])) = (s.followAll steps).follow step := by
      rw [followAll_append]
      rfl
    by_cases hrogue : step.target = some rogue
    case pos =>
      have hnameless := hnever (steps ++ [step]) List.prefix_rfl
      rw [hlast] at hnameless
      have h' := h.follow_rogue (steady_followAll hs steps) hrogue hnameless
      rw [← hlast, ← without_concat_of_eq hrogue] at h'
      exact ⟨R, h', hisolated.concat h'.seem fun _ _ hother => absurd hrogue hother⟩
    case neg =>
      obtain ⟨R', hR, hanswer, h'⟩ := h.exists_follow hrogue
      have hlast' : s.followAll (without rogue (steps ++ [step])) =
          (s.followAll (without rogue steps)).follow step := by
        rw [without_concat_of_ne hrogue, followAll_append]
        rfl
      rw [← hlast, ← hlast'] at h'
      exact ⟨R', h', (hisolated.mono hR).concat h'.seem fun action heq _ => hanswer action heq⟩

/-- **Isolation.** Take any run of a server in which the handshake of one peer never
completes, however often it is opened, begun or given up, and whatever it sends. Without the
steps that concern this peer, the run goes the same way: after each of the other steps, every
other peer has the same state, the same names, the same bytes read and written and the same
result, the router has as many routes, and the step answers the same, but that flows have other
numbers. -/
theorem exists_isolated (nodeName : String) (transform : Transform)
    (nextObject : Formula.ObjectId) (clock : Clock) (rogue : String) (steps : List Step)
    (hnever : NeverNamed rogue (ofNode (.newServer nodeName transform nextObject clock)) steps) :
    ∃ R, Matches R ∧
      Isolated R rogue (ofNode (.newServer nodeName transform nextObject clock)) steps := by
  obtain ⟨R, h, hisolated⟩ := exists_isolated_of_alike (steady_ofNode _)
    (.ofNode rogue nodeName transform nextObject clock) steps hnever
  exact ⟨R, h.matching, hisolated⟩

/-- A server to which nobody is connected. -/
def hub : Session :=
  ofNode (.newServer "hub" .stamp 0 .morning)

/-- Eve sends a greeting in place of the signature, while Ann is greeted. -/
def impostorSteps : List Step :=
  [.perform (.openFlow "eve"), .perform (.openFlow "ann"), .perform (.run "eve"),
    .perform (.farEnd "ann" (.arrive (frameOf signature ++ frameOf (Text.Utf8.encode "ann")))),
    .perform (.run "ann"), .perform (.farEnd "eve" (.arrive (frameOf (Text.Utf8.encode "hello")))),
    .poll "eve", .perform (.broadcast "hello"), .poll "ann"]

theorem neverNamed_impostor : NeverNamed "eve" hub impostorSteps := by
  have hall : impostorSteps.inits.all (fun before => (hub.followAll before).peers.all fun p =>
      p.name != "eve" || p.flow.remoteName.isNone) = true := rfl
  intro before hbefore p hp hname
  have hpeers := List.all_eq_true.1 hall before ((List.mem_inits _ _).2 hbefore)
  have hpeer := List.all_eq_true.1 hpeers p hp
  rw [hname] at hpeer
  exact Option.isNone_iff_eq_none.1 hpeer

/-- Eve is turned away, and Ann's flow gets a lower number without her. -/
theorem exists_isolated_impostor :
    ((hub.followAll impostorSteps).peer? "eve").map (fun p => p.flow.state) = some .closed ∧
      ∃ R, Matches R ∧ Isolated R "eve" hub impostorSteps ∧ R 1 2 := by
  obtain ⟨R, hmatches, hisolated⟩ :=
    exists_isolated "hub" .stamp 0 .morning "eve" impostorSteps neverNamed_impostor
  refine ⟨rfl, R, hmatches, hisolated, ?_⟩
  have hann : Option.Rel (Peer.Alike R) ((hub.followAll (without "eve" impostorSteps)).peer? "ann")
      ((hub.followAll impostorSteps).peer? "ann") :=
    (hisolated.states impostorSteps List.prefix_rfl).peers "ann" (by decide)
  have hlow : ((hub.followAll (without "eve" impostorSteps)).peer? "ann").map
      (fun p => p.flow.id) = some 1 := rfl
  have hhigh : ((hub.followAll impostorSteps).peer? "ann").map (fun p => p.flow.id) = some 2 :=
    rfl
  generalize (hub.followAll (without "eve" impostorSteps)).peer? "ann" = p,
    (hub.followAll impostorSteps).peer? "ann" = q at hann hlow hhigh
  cases hann with
  | none => cases hlow
  | some hp =>
    obtain @⟨id, hid⟩ := hp
    have hid' : id = 2 := Option.some.inj hhigh
    rw [← Option.some.inj hlow, ← hid']
    exact hid

end Parley.Chat.Session
