import Parley.Proofs.Chat.Accounts
import Parley.Proofs.Chat.Numbers

/-!
# Typed lines

The lines that are typed at a client are for one flow. The first flow that becomes active takes
their queue, and sends lines from its front while its run goes on. Any other flow that becomes
active ends at once, and writes nothing behind its handshake.

- `Node.IsFree`: a client whose typed lines were not taken.
- `Node.takers`: who takes them when a node does what it is asked.
- `Flow.Types`: what a flow has written that takes typed lines.
- `Flow.Tells`: what any flow of a client has written, where it stands.
- `Flow.Told`: the same after a flow asked for things, for each thing that a flow can do:
  `told_start`, `told_poll`, `told_abandon`, ….
- `Flow.Admits`: a flow that has had its handshake in a run takes the typed lines, or ends
  with the finding that they are taken (`admits_start`, `admits_poll`).
-/

namespace Parley.Chat

open Wire

/-! ## Who takes the typed lines -/

namespace Node

/-- A client whose typed lines were not taken yet. -/
def IsFree : Node → Prop
  | .server _ => False
  | .client node => node.input.holder = .node

/-- Who takes the typed lines when a node does what it is asked. -/
def taker (n : Node) : Request → List FlowId
  | .openOutbox id =>
    match n.openOutbox id with
    | (.ok .typed, _) => [id]
    | _ => []
  | _ => []

/-- Who takes the typed lines when a node does all that it is asked. -/
def takers (n : Node) : List Request → List FlowId
  | [] => []
  | request :: requests => n.taker request ++ (n.serve request).takers requests

variable {n : Node} {request : Request} {requests : List Request}

theorem takers_append (n : Node) (requests more : List Request) :
    n.takers (requests ++ more) = n.takers requests ++ (n.serveAll requests).takers more := by
  induction requests generalizing n with
  | nil => rfl
  | cons request requests ih =>
    rw [List.cons_append, takers, takers, serveAll_cons, ih, List.append_assoc]

theorem not_isServer_serve (h : ¬ n.IsServer) (request : Request) :
    ¬ (n.serve request).IsServer := by
  cases n with
  | server node => exact absurd trivial h
  | client node =>
    rcases request with id | ⟨_ | _, _⟩ | ⟨_ | _⟩ | ⟨sender, line⟩ | line
    · simp only [serve, openOutbox]
      split <;> exact h
    · exact h
    · exact h
    · exact h
    · exact h
    · simp only [serve, consume]
      split <;> exact h
    · exact h

theorem not_isServer_serveAll (h : ¬ n.IsServer) (requests : List Request) :
    ¬ (n.serveAll requests).IsServer := by
  induction requests generalizing n with
  | nil => exact h
  | cons request requests ih => exact ih (not_isServer_serve h request)

/-- Who comes first takes the typed lines. -/
theorem openOutbox_of_isFree (h : n.IsFree) (id : FlowId) :
    ∃ n', n.openOutbox id = (.ok .typed, n') ∧ ¬ n'.IsFree ∧ ¬ n'.IsServer ∧
      n'.pending .typed = n.pending .typed := by
  cases n with
  | server node => exact h.elim
  | client node =>
    refine ⟨_, if_pos h, ?_, not_false, rfl⟩
    exact InputHolder.noConfusion

theorem openOutbox_of_taken (hclient : ¬ n.IsServer) (h : ¬ n.IsFree) (id : FlowId) :
    n.openOutbox id = (.error .inputUnavailable, n) := by
  cases n with
  | server node => exact absurd trivial hclient
  | client node => exact if_neg h

/-- Typed lines that were taken are never given back. -/
theorem not_isFree_serve (h : ¬ n.IsFree) (request : Request) : ¬ (n.serve request).IsFree := by
  cases n with
  | server node => rcases request with _ | ⟨_ | _, _⟩ | ⟨_ | _⟩ | ⟨_, _⟩ | _ <;> exact not_false
  | client node =>
    rcases request with id | ⟨_ | _, _⟩ | ⟨_ | _⟩ | ⟨sender, line⟩ | line
    · rw [serve, openOutbox_of_taken (n := .client node) not_false h]
      exact h
    · exact h
    · exact h
    · exact h
    · exact InputHolder.noConfusion
    · simp only [serve, consume]
      split <;> exact h
    · exact h

theorem not_isFree_serveAll (h : ¬ n.IsFree) (requests : List Request) :
    ¬ (n.serveAll requests).IsFree := by
  induction requests generalizing n with
  | nil => exact h
  | cons request requests ih => exact ih (not_isFree_serve h request)

theorem taker_of_isFree (h : n.IsFree) (id : FlowId) : n.taker (.openOutbox id) = [id] := by
  obtain ⟨n', hopen, -⟩ := openOutbox_of_isFree h id
  rw [taker, hopen]

/-- Nobody takes the typed lines a second time. -/
theorem taker_of_taken (h : ¬ n.IsFree) (request : Request) : n.taker request = [] := by
  cases request with
  | openOutbox id =>
    cases n with
    | server node => rfl
    | client node => rw [taker, openOutbox_of_taken (n := .client node) not_false h]
  | setPending | closeOutbox | consume | broadcast => rfl

theorem takers_of_taken (h : ¬ n.IsFree) (requests : List Request) : n.takers requests = [] := by
  induction requests generalizing n with
  | nil => rfl
  | cons request requests ih => rw [takers, taker_of_taken h, ih (not_isFree_serve h request)]; rfl

theorem not_isFree_of_taker (h : n.taker request ≠ []) : ¬ (n.serve request).IsFree := by
  cases request with
  | openOutbox id =>
    by_cases hfree : n.IsFree
    case pos =>
      obtain ⟨n', hopen, htaken, -⟩ := openOutbox_of_isFree hfree id
      rw [serve, hopen]
      exact htaken
    case neg => exact not_isFree_serve hfree _
  | setPending | closeOutbox | consume | broadcast => exact absurd rfl h

theorem not_isFree_of_takers (h : n.takers requests ≠ []) : ¬ (n.serveAll requests).IsFree := by
  induction requests generalizing n with
  | nil => exact absurd rfl h
  | cons request requests ih =>
    rw [takers] at h
    by_cases hfirst : n.taker request = []
    case pos => exact ih fun hrest => h (by rw [hfirst, hrest]; rfl)
    case neg => exact not_isFree_serveAll (not_isFree_of_taker hfirst) requests

/-- The typed lines are left alone. -/
structure LeavesTyped (n n' : Node) : Prop where
  isServer_iff : n'.IsServer ↔ n.IsServer
  name_eq : n'.name = n.name
  free_iff : n'.IsFree ↔ n.IsFree
  pending_eq : n'.pending .typed = n.pending .typed

theorem leavesTyped_consume (n : Node) (sender line : String) :
    n.LeavesTyped (n.consume sender line) := by
  cases n with
  | server node => exact ⟨Iff.rfl, rfl, Iff.rfl, rfl⟩
  | client node =>
    unfold consume
    dsimp only
    split <;> exact ⟨Iff.rfl, rfl, Iff.rfl, rfl⟩

theorem leavesTyped_broadcast (n : Node) (line : String) :
    n.LeavesTyped (n.broadcast line).2 := by
  cases n <;> exact ⟨Iff.rfl, rfl, Iff.rfl, rfl⟩

theorem leavesTyped_endTyping (n : Node) : n.LeavesTyped n.endTyping := by
  cases n <;> exact ⟨Iff.rfl, rfl, Iff.rfl, rfl⟩

theorem leavesTyped_closeConsole (n : Node) : n.LeavesTyped n.closeConsole := by
  cases n <;> exact ⟨Iff.rfl, rfl, Iff.rfl, rfl⟩

theorem pending_consumeAll (n : Node) (sender : String) (heard : List String) :
    (n.serveAll (heard.map (.consume sender))).pending .typed = n.pending .typed := by
  induction heard generalizing n with
  | nil => rfl
  | cons line heard ih => exact (ih _).trans (n.leavesTyped_consume sender line).pending_eq

theorem pending_setPending (hclient : ¬ n.IsServer) (lines : List String) :
    (n.setPending .typed lines).pending .typed = lines := by
  cases n with
  | server node => exact absurd trivial hclient
  | client node => rfl

/-- A line that is accepted waits behind the others; any other one is lost. -/
theorem typeLine_cases (hclient : ¬ n.IsServer) (line : String) :
    (n.typeLine line).1 = some true ∧ ¬ (n.typeLine line).2.IsServer ∧
        ((n.typeLine line).2.IsFree ↔ n.IsFree) ∧
        (n.typeLine line).2.pending .typed = n.pending .typed ++ [line] ∨
      (n.typeLine line).1 ≠ some true ∧ (n.typeLine line).2 = n := by
  cases n with
  | server node => exact absurd trivial hclient
  | client node =>
    unfold typeLine
    dsimp only
    split
    · exact .inr ⟨(nomatch ·), rfl⟩
    · split
      · exact .inr ⟨(nomatch ·), rfl⟩
      · exact .inl ⟨rfl, not_false, Iff.rfl, rfl⟩

end Node

/-! ## What the flows of a client write -/

/-- Lines that are passed on to one flow. -/
def passed (id : FlowId) (lines : List String) : List Relay :=
  lines.map fun line => ⟨line, [id]⟩

theorem map_line_passed (id : FlowId) (lines : List String) :
    (passed id lines).map Relay.line = lines := by
  rw [passed, List.map_map]
  exact List.map_id lines

/-- A flow hears all lines that are passed on to it. -/
theorem segment_passed (id : FlowId) (lines : List String) :
    Segment id (passed id lines) [] (passed id lines) [] where
  log_eq := (List.append_nil _).symm
  before := List.forall_mem_nil _
  during relay hrelay := by
    obtain ⟨line, -, rfl⟩ := List.mem_map.1 hrelay
    exact List.mem_singleton_self id
  after := List.forall_mem_nil _

/-- What a flow hears of the lines that are passed on to it stands in front of them. -/
theorem Segment.prefix_of_passed {id : FlowId} {lines : List String}
    {before during after : List Relay} (h : Segment id (passed id lines) before during after) :
    during.map Relay.line <+: lines := by
  have hmem : ∀ relay ∈ passed id lines, id ∈ relay.ids := (segment_passed id lines).during
  cases before with
  | nil =>
    rw [← map_line_passed id lines, h.log_eq, List.nil_append, List.map_append]
    exact List.prefix_append ..
  | cons relay before =>
    refine absurd (hmem relay ?_) (h.before relay List.mem_cons_self)
    rw [h.log_eq]
    exact List.mem_cons_self

theorem eq_nil_of_unheard {n : Node} {id : FlowId} {lines : List String}
    (h : Unheard n (passed id lines) id) : lines = [] := by
  cases lines with
  | nil => rfl
  | cons line lines => exact absurd (List.mem_singleton_self id) (h.never _ List.mem_cons_self)

namespace Flow

/-- A flow that takes typed lines: of those that were accepted it took some from the front, and
the others wait. -/
structure Types (name : String) (limit : Nat) (accepted waiting : List String) (f : Flow)
    (signatures names : Nat) (taken : List String) : Prop where
  lines_eq : accepted = taken ++ waiting
  out : f.link.out = greeting name signatures names ++ frameLines taken
  active : f.state = .active
  introduced : f.isIntroduced = true
  signatures_pos : 1 ≤ signatures
  signatures_le : signatures ≤ limit
  names_pos : 1 ≤ names
  names_le : names ≤ limit

/-- What a flow of a client has written, where it stands, if these flows have taken the typed
lines. A flow that has the queue takes lines that were accepted; what it took before it gave
the queue up is, as with a server, its part of what was passed on. -/
inductive Tells (name : String) (limit : Nat) (takers : List FlowId)
    (accepted waiting : List String) (f : Flow) : Presence → Prop
  | apart {presence : Presence} {kept : List String} (hkept : kept <+: accepted)
      (hstranger : f.id ∉ takers → kept = [])
      (haccount : f.Account name limit (.newClient name) (passed f.id kept) presence) :
      Tells name limit takers accepted waiting f presence
  | typing {sending : SendStage} {receiving : ReceiveStage} {signatures names : Nat}
      {taken : List String} (htakers : takers = [f.id])
      (htypes : f.Types name limit accepted waiting signatures names taken)
      (hready : sending.Ready f.link) :
      Tells name limit takers accepted waiting f (.running (.pumping .typed sending receiving))

variable {name : String} {limit limit' : Nat} {takers takers' : List FlowId}
  {accepted waiting : List String} {f f' : Flow} {presence presence' : Presence} {n : Node}
  {requests more : List Request} {signatures names : Nat} {taken : List String}

/-- Without routes no flow takes lines from a subscriber's queue. -/
theorem not_account_pumping {log : List Relay} {outbox : Outbox} {sending : SendStage}
    {receiving : ReceiveStage} :
    ¬ f.Account name limit (.newClient name) log
      (.running (.pumping outbox sending receiving)) := by
  intro haccount
  cases haccount with
  | fresh hfree => rcases hfree with h | h | h <;> cases h
  | queued hqueues => exact nomatch hqueues.serves.route
  | silent hspent => obtain h | h | ⟨⟨_, h⟩, -⟩ := hspent <;> cases h

namespace Tells

/-- The account of a flow that takes no typed lines. -/
theorem of_account {id : FlowId} {kept : List String} (hid : f.id = id) (hkept : kept <+: accepted)
    (hstranger : id ∉ takers → kept = [])
    (haccount : f.Account name limit (.newClient name) (passed id kept) presence) :
    f.Tells name limit takers accepted waiting presence := by
  subst hid
  exact .apart hkept hstranger haccount

/-- A connection becomes a flow, which gets a number. -/
theorem of_connected {id : FlowId}
    (h : f.Tells name limit takers accepted waiting .connected) (cancelled : Bool) :
    Tells name limit takers accepted waiting { f with id, cancelled } .idle := by
  cases h with
  | @apart _ kept hkept hstranger haccount =>
    -- A flow that had no run was passed nothing on.
    obtain rfl : kept = [] := by
      cases haccount with
      | fresh _ hunheard => exact eq_nil_of_unheard hunheard
      | silent hpresence => obtain h | h | ⟨⟨_, h⟩, -⟩ := hpresence <;> cases h
    have hunheard : Unheard (.newClient name) (passed id []) id :=
      ⟨List.not_mem_nil, List.forall_mem_nil _⟩
    exact .apart hkept (fun _ => rfl) (account_of_connected haccount hunheard cancelled)

/-- What happens to an idle flow, or to a connection. -/
theorem of_free (h : f.Tells name limit takers accepted waiting presence)
    (hfree : presence = .idle ∨ presence = .connected) (hid : f'.id = f.id)
    (himp : ∀ log, f.Account name limit (.newClient name) log presence →
      f'.Account name limit' (.newClient name) log presence') :
    f'.Tells name limit' takers accepted waiting presence' := by
  cases h with
  | apart hkept hstranger haccount => exact .of_account hid hkept hstranger (himp _ haccount)
  | typing => rcases hfree with h | h <;> cases h

theorem stays (h : f.Tells name limit takers accepted waiting presence) (hstays : f.Stays f') :
    f'.Tells name limit takers accepted waiting presence := by
  cases h with
  | apart hkept hstranger haccount =>
    exact .of_account hstays.id hkept hstranger (hstays.account haccount)
  | typing htakers htypes hready =>
    have hstate : f'.state = f.state :=
      hstays.state_of_ne (by rw [htypes.active]; exact FlowState.noConfusion)
    exact .typing (hstays.id.symm ▸ htakers)
      { htypes with
        out := hstays.out.trans htypes.out
        active := hstate.trans htypes.active
        introduced := hstays.isIntroduced.trans htypes.introduced } (hstays.ready hready)

theorem mono (h : f.Tells name limit takers accepted waiting presence) (hle : limit ≤ limit') :
    f.Tells name limit' takers accepted waiting presence := by
  cases h with
  | apart hkept hstranger haccount => exact .apart hkept hstranger (account_mono haccount hle)
  | typing htakers htypes hready =>
    exact .typing htakers
      { htypes with
        signatures_le := Nat.le_trans htypes.signatures_le hle
        names_le := Nat.le_trans htypes.names_le hle } hready

/-- A flow that has not taken the typed lines does not depend on who has. -/
theorem of_notMem (h : f.Tells name limit takers accepted waiting presence)
    (hsub : takers ⊆ takers') (hnot : f.id ∉ takers') (waiting' : List String) :
    f.Tells name limit takers' accepted waiting' presence := by
  cases h with
  | apart hkept hstranger haccount =>
    exact .apart hkept (fun _ => hstranger fun hmem => hnot (hsub hmem)) haccount
  | typing htakers => exact absurd (hsub (htakers ▸ List.mem_singleton_self f.id)) hnot

/-- A line is accepted, and waits behind the others. -/
theorem accept (h : f.Tells name limit takers accepted waiting presence) (line : String) :
    f.Tells name limit takers (accepted ++ [line]) (waiting ++ [line]) presence := by
  cases h with
  | apart hkept hstranger haccount =>
    exact .apart (hkept.trans (List.prefix_append ..)) hstranger haccount
  | typing htakers htypes hready =>
    refine .typing htakers { htypes with lines_eq := ?_ } hready
    rw [htypes.lines_eq, List.append_assoc]

/-- A flow that has not taken the typed lines takes none of them, and writes nothing behind its
handshakes. -/
theorem written_of_notMem (h : f.Tells name limit takers accepted waiting presence)
    (hnot : f.id ∉ takers) :
    (∀ outbox sending receiving, presence ≠ .running (.pumping outbox sending receiving)) ∧
      ∃ signatures names, signatures ≤ limit ∧ names ≤ limit ∧
        f.link.stream.written <+: greeting name signatures names := by
  cases h with
  | typing htakers => exact absurd (htakers ▸ List.mem_singleton_self f.id) hnot
  | apart _ hstranger haccount =>
    obtain rfl := hstranger hnot
    obtain ⟨signatures, names, before, during, after, hwrites⟩ := exists_writes haccount
    have hwritten := hwrites.written_prefix
    rw [List.prefix_nil.1 hwrites.segment.prefix_of_passed, frameLines_nil, List.append_nil]
      at hwritten
    refine ⟨?_, signatures, names, hwrites.signatures_le, hwrites.names_le, hwritten⟩
    rintro outbox sending receiving rfl
    exact not_account_pumping haccount

/-- What any flow writes behind its handshakes begins the frames for the accepted lines. -/
theorem written_of_isIntroduced (h : f.Tells name limit takers accepted waiting presence)
    (hintroduced : f.isIntroduced = true) :
    ∃ signatures names, 1 ≤ signatures ∧ signatures ≤ limit ∧ 1 ≤ names ∧ names ≤ limit ∧
      f.link.stream.written <+: greeting name signatures names ++ frameLines accepted := by
  cases h with
  | typing _ htypes =>
    exact ⟨_, _, htypes.signatures_pos, htypes.signatures_le, htypes.names_pos, htypes.names_le,
      written_prefix_of_out htypes.out (htypes.lines_eq ▸ List.prefix_append ..)⟩
  | apart hkept _ haccount =>
    obtain ⟨signatures, names, before, during, after, hwrites⟩ := exists_writes haccount
    obtain ⟨hsignatures, hnames⟩ := hwrites.named (Bool.and_eq_true_iff.1 hintroduced).2
    have hlines : during.map Relay.line <+: accepted :=
      hwrites.segment.prefix_of_passed.trans hkept
    exact ⟨signatures, names, hsignatures, hwrites.signatures_le, hnames, hwrites.names_le,
      hwrites.written_prefix.trans
        ((List.prefix_append_right_inj _).2 (prefix_frameLines hlines))⟩

end Tells

/-! ### Runs -/

/-- What a flow has written after it asked for things. Others find the node as it was, or
these lines taken by this flow. -/
structure Told (name : String) (limit : Nat) (takers : List FlowId) (accepted : List String)
    (n : Node) (f' : Flow) (presence : Presence) (requests : List Request) : Prop where
  tells : f'.Tells name limit (takers ++ n.takers requests) accepted
    ((n.serveAll requests).pending .typed) presence
  minds : n.serveAll requests = n ∧ n.takers requests = [] ∨
    takers ++ n.takers requests = [f'.id]
  introduced : n.takers requests ≠ [] → f'.isIntroduced = true

namespace Told

/-- A flow that asked for nothing. -/
theorem of_tells (h : f'.Tells name limit takers accepted (n.pending .typed) presence) :
    Told name limit takers accepted n f' presence [] where
  tells := by
    rw [Node.takers, List.append_nil]
    exact h
  minds := .inl ⟨rfl, rfl⟩
  introduced hne := absurd rfl hne

/-- What is asked first and what is asked then. -/
theorem append (hfirst : Told name limit takers accepted n f presence requests)
    (hpersists : f.Persists f')
    (h : Told name limit (takers ++ n.takers requests) accepted (n.serveAll requests) f' presence'
      more) :
    Told name limit takers accepted n f' presence' (requests ++ more) where
  tells := by
    rw [Node.serveAll_append, Node.takers_append, ← List.append_assoc]
    exact h.tells
  minds := by
    rw [Node.serveAll_append, Node.takers_append, ← List.append_assoc]
    obtain ⟨hsame, hnone⟩ | hown := h.minds
    · rw [hsame, hnone, List.append_nil, List.append_nil, hpersists.id]
      exact hfirst.minds
    · exact .inr hown
  introduced hne := by
    rw [Node.takers_append] at hne
    by_cases hnone : n.takers requests = []
    case pos => exact h.introduced fun hnone' => hne (by rw [hnone, hnone']; rfl)
    case neg => exact hpersists.introduced (hfirst.introduced hnone)

/-- The flow of a run that ended is dropped. -/
theorem drop (h : Told name limit takers accepted n f' .idle requests) :
    Told name limit takers accepted n f'.drop .gone requests where
  tells := h.tells.of_free (.inl rfl) rfl fun _ haccount => account_drop haccount (.inl rfl)
  minds := h.minds
  introduced hne := f'.persists_drop.introduced (h.introduced hne)

end Told

/-! ### Runs that take typed lines -/

/-- A flow that does not take typed lines any more. -/
theorem Types.silent (h : f.Types name limit accepted waiting signatures names taken) :
    f.Silent name limit (.newClient name) (passed f.id accepted) signatures names []
      (passed f.id accepted) [] taken where
  segment := segment_passed f.id accepted
  unrouted := List.not_mem_nil
  taken_prefix := by
    rw [map_line_passed, h.lines_eq]
    exact List.prefix_append ..
  out := h.out
  started := by rw [h.active]; exact FlowState.noConfusion
  spent := .inl h.introduced
  counts_pos _ := ⟨h.signatures_pos, h.names_pos⟩
  signatures_le := h.signatures_le
  names_le := h.names_le

/-- It took some of the lines that had been accepted. -/
theorem tells_of_taken (htakers : takers = [f.id]) (hid : f'.id = f.id)
    (haccount : f'.Account name limit (.newClient name) (passed f.id accepted) presence) :
    f'.Tells name limit takers accepted waiting presence :=
  .of_account hid List.prefix_rfl
    (fun hnot => absurd (htakers ▸ List.mem_singleton_self f.id) hnot) haccount

/-- A run that ends with its queue. -/
theorem Types.tells_conclude {waiting' : List String}
    (h : f.Types name limit accepted waiting signatures names taken) (htakers : takers = [f.id])
    (result : FlowResult) :
    (f.conclude result).2.Tells name limit takers accepted waiting'
      (f.conclude result).1.presence :=
  tells_of_taken htakers (id_conclude result f) (account_of_conclude fun _ => h.silent.of_ends)

/-- What the flow asks for that has taken the typed lines. -/
theorem told_of_taken (htaken : ¬ n.IsFree) (htakers : takers = [f'.id])
    (h : f'.Tells name limit takers accepted ((n.serveAll requests).pending .typed) presence) :
    Told name limit takers accepted n f' presence requests := by
  have hnone := n.takers_of_taken htaken requests
  refine ⟨?_, .inr ?_, fun hne => absurd hnone hne⟩
  · rwa [hnone, List.append_nil]
  · rw [hnone, List.append_nil, htakers]

/-- Lines that are sent are taken from those that wait. -/
theorem Types.converse {link : Link} {taken' left : List String}
    (h : f.Types name limit accepted waiting signatures names taken)
    (hwaiting : waiting = taken' ++ left) (hout : link.out = f.link.out ++ frameLines taken') :
    Types name limit accepted left { f with link } signatures names (taken ++ taken') :=
  { h with
    lines_eq := by rw [h.lines_eq, hwaiting, List.append_assoc]
    out := by rw [hout, h.out, frameLines_append, List.append_assoc] }

/-- Going on with both directions. -/
theorem Types.told_pump {sending : SendStage}
    (h : f.Types name limit accepted (n.pending .typed) signatures names taken)
    (htakers : takers = [f.id]) (hready : sending.Ready f.link) (hclient : ¬ n.IsServer)
    (htaken : ¬ n.IsFree) (receiving : ReceiveStage) :
    Told name limit takers accepted n (f.pump .typed sending receiving n).2.1
      (f.pump .typed sending receiving n).1.presence
      (f.pump .typed sending receiving n).2.2 := by
  have hconverses : Converses n .typed f _ := converses_converse hready receiving
  unfold pump
  generalize f.converse .typed sending receiving n = result at hconverses ⊢
  cases hconverses with
  | stopped =>
    exact told_of_taken htaken (by rw [htakers, id_conclude]) (h.tells_conclude htakers _)
  | @went progress taken' left heard link hpending hout hwaiting =>
    have htypes := h.converse hpending hout
    cases progress with
    | finished result =>
      exact told_of_taken htaken (by rw [htakers, id_conclude]) (htypes.tells_conclude htakers _)
    | waiting phase =>
      obtain ⟨sending', receiving', rfl, hready'⟩ := hwaiting phase rfl
      have hleft : (n.serveAll (.setPending .typed left :: f.consumeAll heard)).pending .typed =
          left :=
        (Node.pending_consumeAll ..).trans (Node.pending_setPending hclient left)
      exact told_of_taken htaken htakers (.typing htakers (hleft.symm ▸ htypes) hready')

end Flow

/-- A client whose typed lines were taken by these flows. Until then all lines that were accepted
wait. -/
structure Node.TakenBy (takers : List FlowId) (accepted : List String) (n : Node) : Prop where
  client : ¬ n.IsServer
  free_iff : n.IsFree ↔ takers = []
  waiting : takers = [] → accepted = n.pending .typed

namespace Flow

variable {name : String} {limit : Nat} {takers : List FlowId} {accepted : List String}
  {f f' : Flow} {presence : Presence} {n : Node} {requests : List Request}
  {signatures names : Nat}

theorem Told.takenBy (h : Told name limit takers accepted n f' presence requests)
    (hn : n.TakenBy takers accepted) :
    (n.serveAll requests).TakenBy (takers ++ n.takers requests) accepted := by
  obtain ⟨hsame, hnone⟩ | hown := h.minds
  · rwa [hsame, hnone, List.append_nil]
  · have hne : takers ++ n.takers requests ≠ [] := by
      rw [hown]
      exact List.cons_ne_nil _ _
    refine ⟨Node.not_isServer_serveAll hn.client requests, iff_of_false ?_ hne,
      fun hnil => absurd hnil hne⟩
    by_cases hfirst : takers = []
    case pos =>
      rw [hfirst] at hne
      exact Node.not_isFree_of_takers hne
    case neg => exact Node.not_isFree_serveAll (fun hfree => hfirst (hn.free_iff.1 hfree)) requests

/-! ### Runs that become active -/

/-- The first flow that becomes active takes the typed lines. -/
theorem told_activate_of_isFree (hgreets : f.Greets name signatures names)
    (hsignatures : signatures ≤ limit) (hnames : names ≤ limit)
    (hintroduced : f.isIntroduced = true) (hn : n.TakenBy [] accepted) (hfree : n.IsFree) :
    Told name limit [] accepted n (f.activate n).2.1 (f.activate n).1.presence
      (f.activate n).2.2 := by
  obtain ⟨n', hopen, htaken, hclient, hpending⟩ := Node.openOutbox_of_isFree hfree f.id
  obtain ⟨hvalidated, hnamed⟩ := Bool.and_eq_true_iff.1 hintroduced
  obtain ⟨-, hpos, hempty⟩ := hgreets.named hnamed
  have hn' : n.serveAll [.openOutbox f.id] = n' := congrArg Prod.snd hopen
  have htakers : n.takers [.openOutbox f.id] = [f.id] := by
    rw [Node.takers, Node.taker_of_isFree hfree]
    rfl
  have htypes : Types name limit accepted (n'.pending .typed) { f with state := .active }
      signatures names [] :=
    { lines_eq := (hn.waiting rfl).trans hpending.symm
      out := hgreets.out.trans (List.append_nil _).symm
      active := rfl
      introduced := hintroduced
      signatures_pos := hgreets.validated hvalidated
      signatures_le := hsignatures
      names_pos := hpos
      names_le := hnames }
  have hready : SendStage.idle.Ready f.link := hempty
  have hfirst : Told name limit [] accepted n { f with state := .active }
      (.running (.pumping .typed .idle .probing)) [.openOutbox f.id] := by
    refine ⟨?_, .inr ?_, fun _ => hintroduced⟩
    · rw [htakers, hn']
      exact .typing rfl htypes hready
    · rw [htakers]
      rfl
  have hactivate : f.activate n =
      ((pump .typed .idle .probing { f with state := .active } n').1,
        (pump .typed .idle .probing { f with state := .active } n').2.1,
        [.openOutbox f.id] ++
          (pump .typed .idle .probing { f with state := .active } n').2.2) := by
    rw [activate, hopen]
    rfl
  rw [hactivate]
  refine hfirst.append (persists_pump ..) ?_
  rw [htakers, hn']
  exact htypes.told_pump rfl hready hclient htaken .probing

/-- A flow that finds the typed lines taken ends. -/
theorem activate_of_taken (hclient : ¬ n.IsServer) (htaken : ¬ n.IsFree) (f : Flow) :
    f.activate n =
      ((conclude (.error .inputUnavailable) { f with state := .active }).1,
        (conclude (.error .inputUnavailable) { f with state := .active }).2,
        [.openOutbox f.id]) := by
  rw [activate, Node.openOutbox_of_taken hclient htaken]

section Apart

variable {kept : List String} (hkept : kept <+: accepted)
include hkept

/-- A run that ends before the flow took the typed lines, or with the finding that they are
taken. -/
theorem tells_conclude {waiting : List String} (hstranger : f.id ∉ takers → kept = [])
    (hunheard : Unheard (.newClient name) (passed f.id kept) f.id)
    (hgreets : f.Greets name signatures names) (hsignatures : signatures ≤ limit)
    (hnames : names ≤ limit) (result : FlowResult) :
    (f.conclude result).2.Tells name limit takers accepted waiting
      (f.conclude result).1.presence :=
  .of_account (id_conclude result f) hkept hstranger (account_of_conclude fun _ hends =>
    silent_of_greets hgreets hunheard hsignatures hnames hends)

/-- A flow that becomes active takes the typed lines, or ends. -/
theorem told_activate (hstranger : f.id ∉ takers → kept = [])
    (hunheard : Unheard (.newClient name) (passed f.id kept) f.id)
    (hgreets : f.Greets name signatures names) (hsignatures : signatures ≤ limit)
    (hnames : names ≤ limit) (hintroduced : f.isIntroduced = true)
    (hn : n.TakenBy takers accepted) :
    Told name limit takers accepted n (f.activate n).2.1 (f.activate n).1.presence
      (f.activate n).2.2 := by
  by_cases hfree : n.IsFree
  case pos =>
    obtain rfl := hn.free_iff.1 hfree
    exact told_activate_of_isFree hgreets hsignatures hnames hintroduced hn hfree
  case neg =>
    have hactive : Greets name signatures names { f with state := .active } := { hgreets with }
    have hsame : n.serveAll [.openOutbox f.id] = n :=
      congrArg Prod.snd (Node.openOutbox_of_taken hn.client hfree f.id)
    have hnone := n.takers_of_taken hfree [.openOutbox f.id]
    rw [activate_of_taken hn.client hfree]
    refine ⟨?_, .inl ⟨hsame, hnone⟩, fun hne => absurd hnone hne⟩
    rw [hnone, List.append_nil]
    exact tells_conclude (f := { f with state := .active }) hkept hstranger hunheard hactive
      hsignatures hnames _

/-- A run that is still at its handshake. -/
theorem told_of_enters {id : FlowId} {cancelled : Bool}
    {result : RunProgress × Flow × List Request}
    (hstranger : id ∉ takers → kept = [])
    (hunheard : Unheard (.newClient name) (passed id kept) id)
    (h : Enters name limit n id cancelled result) (hn : n.TakenBy takers accepted) :
    Told name limit takers accepted n result.2.1 result.1.presence result.2.2 := by
  cases h with
  | waits hid hstate hshakes =>
    subst hid
    exact .of_tells (.apart hkept hstranger (.shaking hstate hunheard hshakes))
  | ends hid hgreets hsignatures hnames _ result =>
    subst hid
    exact .of_tells
      (tells_conclude hkept hstranger hunheard hgreets hsignatures hnames result)
  | activates hid hgreets hsignatures hnames hintroduced =>
    subst hid
    exact told_activate hkept hstranger hunheard hgreets hsignatures hnames hintroduced hn

end Apart

/-- A run of an idle flow begins only if that is its first. -/
theorem told_start (h : f.Tells name limit takers accepted (n.pending .typed) .idle)
    (hname : n.name = name) (hn : n.TakenBy takers accepted) :
    Told name (limit + 1) takers accepted n (f.start n).2.1 (f.start n).1.presence
      (f.start n).2.2 := by
  -- A run that has begun before is refused, and changes nothing.
  have hrefused := Told.of_tells (h.mono (Nat.le_succ limit))
  cases hstate : f.state with
  | created =>
    cases h with
    | apart hkept hstranger haccount =>
      cases haccount with
      | fresh _ hunheard hgreets hsignatures hnames =>
        exact told_of_enters hkept hstranger hunheard
          (enters_start hgreets hsignatures hnames hname hstate) hn
      | silent _ hsilent => exact absurd hstate hsilent.started
  | handshaking | active | closed =>
    unfold start
    rw [hstate]
    exact hrefused

/-- Going on with a run. -/
theorem told_poll {phase : Phase}
    (h : f.Tells name limit takers accepted (n.pending .typed) (.running phase))
    (hname : n.name = name) (hn : n.TakenBy takers accepted) :
    Told name limit takers accepted n (f.poll phase n).2.1 (f.poll phase n).1.presence
      (f.poll phase n).2.2 := by
  cases h with
  | typing htakers htypes hready =>
    refine htypes.told_pump htakers hready hn.client (fun hfree => ?_) _
    exact List.cons_ne_nil _ _ (htakers.symm.trans (hn.free_iff.1 hfree))
  | apart hkept hstranger haccount =>
    cases haccount with
    | fresh hpresence => rcases hpresence with h | h | h <;> cases h
    | shaking hstate hunheard hshakes =>
      exact told_of_enters hkept hstranger hunheard
        (enters_pollHandshake hshakes hname hstate) hn
    | queued hqueues => exact nomatch hqueues.serves.route
    | silent hpresence hsilent =>
      obtain h | h | ⟨⟨result, h⟩, hstate, hdisposed⟩ := hpresence
      · cases h
      · cases h
      · cases h
        obtain ⟨f', hends, hpoll | hpoll⟩ := poll_closing_cases hstate hdisposed result n
        · rw [hpoll]
          exact .of_tells (.of_account hends.id hkept hstranger
            (.silent (.inr (.inr ⟨⟨result, rfl⟩, hends.state, hends.disposed⟩))
              (hsilent.of_ends hends)))
        · rw [hpoll]
          exact .of_tells (.of_account hends.id hkept hstranger
            (.silent (.inl rfl) (hsilent.of_ends hends)))

/-- Giving a run up gives the typed lines up. -/
theorem told_abandon {phase : Phase}
    (h : f.Tells name limit takers accepted (n.pending .typed) (.running phase))
    (hn : n.TakenBy takers accepted) :
    Told name limit takers accepted n (f.abandon phase).1 .idle (f.abandon phase).2 := by
  cases h with
  | typing htakers htypes hready =>
    refine told_of_taken (fun hfree => ?_) htakers
      (tells_of_taken htakers rfl (.silent (.inl rfl) htypes.silent))
    exact List.cons_ne_nil _ _ (htakers.symm.trans (hn.free_iff.1 hfree))
  | apart hkept hstranger haccount =>
    have hgiven := accounts_abandon haccount
    have hnone : (f.abandon phase).2 = [] := by
      cases phase with
      | handshaking | closing => rfl
      | pumping => exact absurd haccount not_account_pumping
    have haccount' := hgiven.account
    rw [hnone] at haccount' ⊢
    rw [Node.relaysAll_nil, List.append_nil] at haccount'
    exact .of_tells (.of_account hgiven.id_eq hkept hstranger haccount')

/-! ### Runs that find the typed lines taken -/

/-- A flow that has ended with its handshake. It has let go of its link, on which it wrote
signatures and names, and nothing else. -/
structure Refused (name : String) (limit : Nat) (f : Flow) : Prop where
  closed : f.state = .closed
  released : f.holding = .nothing
  written : ∃ signatures names, 1 ≤ signatures ∧ signatures ≤ limit ∧ 1 ≤ names ∧
    names ≤ limit ∧ f.link.stream.written = greeting name signatures names

theorem Refused.drop (h : f.Refused name limit) : f.drop.Refused name limit :=
  ⟨rfl, rfl, h.written⟩

/-- What becomes of a run in which the flow has had its handshake: the flow takes the typed
lines, or finds them taken and ends. -/
inductive Admits (name : String) (limit : Nat) (n : Node)
    (result : RunProgress × Flow × List Request) : Prop
  | takes (htakers : n.takers result.2.2 = [result.2.1.id])
  | refused (htakers : n.takers result.2.2 = [])
      (hended : result.1 = .finished (.error .inputUnavailable))
      (hrefused : result.2.1.Refused name limit)

theorem remoteName_conclude (result : FlowResult) (f : Flow) :
    (f.conclude result).2.remoteName = f.remoteName := by
  obtain ⟨f', hends, hresult | hresult⟩ := f.conclude_cases result <;>
    rw [hresult] <;> exact hends.remoteName

/-- A flow that becomes active asks for the queue first, and asks for it once. -/
theorem takers_activate (hfree : n.IsFree) (f : Flow) :
    n.takers (f.activate n).2.2 = [f.id] := by
  have hone := Node.taker_of_isFree hfree f.id
  have htaken : ¬ (n.serve (.openOutbox f.id)).IsFree :=
    Node.not_isFree_of_taker (by rw [hone]; exact List.cons_ne_nil _ _)
  obtain ⟨requests, hrequests⟩ :
      ∃ requests, (f.activate n).2.2 = .openOutbox f.id :: requests := by
    unfold activate
    dsimp only
    split <;> exact ⟨_, rfl⟩
  rw [hrequests, Node.takers, hone, Node.takers_of_taken htaken, List.append_nil]

theorem admits_activate (hgreets : f.Greets name signatures names)
    (hsignatures : signatures ≤ limit) (hnames : names ≤ limit)
    (hintroduced : f.isIntroduced = true) (hclient : ¬ n.IsServer) :
    Admits name limit n (f.activate n) := by
  by_cases hfree : n.IsFree
  case pos =>
    refine .takes ?_
    rw [(persists_activate n f).id]
    exact takers_activate hfree f
  case neg =>
    obtain ⟨hvalidated, hnamed⟩ := Bool.and_eq_true_iff.1 hintroduced
    obtain ⟨-, hpos, hempty⟩ := hgreets.named hnamed
    have hdrained : f.link.stream.written = greeting name signatures names := by
      have hout := hgreets.out
      rwa [Link.out, hempty, List.append_nil] at hout
    obtain ⟨f', hconclude, hends, hreleased, hwritten⟩ :=
      conclude_of_empty (f := { f with state := .active }) hempty (.error .inputUnavailable)
    rw [activate_of_taken hclient hfree, hconclude]
    exact .refused (n.takers_of_taken hfree _) rfl
      ⟨hends.state, hreleased, signatures, names, hgreets.validated hvalidated, hsignatures,
        hpos, hnames, hwritten.trans hdrained⟩

/-- A run that was not asked to stop, and after which the flow has had its handshake. -/
theorem admits_of_enters {id : FlowId} {result : RunProgress × Flow × List Request}
    (h : Enters name limit n id false result) (hclient : ¬ n.IsServer)
    (hafter : result.2.1.isIntroduced = true) : Admits name limit n result := by
  cases h with
  | waits _ _ hshakes => cases hafter.symm.trans (isIntroduced_of_nameless hshakes.nameless)
  | @ends f _ _ _ _ _ _ hwhy result =>
    have hnameless := (remoteName_conclude result f).trans (hwhy.resolve_left Bool.false_ne_true)
    cases hafter.symm.trans (isIntroduced_of_nameless hnameless)
  | activates _ hgreets hsignatures hnames hintroduced =>
    exact admits_activate hgreets hsignatures hnames hintroduced hclient

/-- A run that begins. -/
theorem admits_start {waiting : List String}
    (h : f.Tells name limit takers accepted waiting .idle) (hname : n.name = name)
    (hclient : ¬ n.IsServer) (hcreated : f.state = .created) (hgo : f.cancelled = false)
    (hintroduced : (f.start n).2.1.isIntroduced = true) :
    Admits name (limit + 1) n (f.start n) := by
  cases h with
  | apart _ _ haccount =>
    cases haccount with
    | fresh _ _ hgreets hsignatures hnames =>
      have henters := enters_start hgreets hsignatures hnames hname hcreated
      rw [hgo] at henters
      exact admits_of_enters henters hclient hintroduced
    | silent _ hsilent => exact absurd hcreated hsilent.started

/-- A run that goes on with its handshake. -/
theorem admits_poll {waiting : List String} {stage : HandshakeStage}
    (h : f.Tells name limit takers accepted waiting (.running (.handshaking stage)))
    (hname : n.name = name) (hclient : ¬ n.IsServer) (hgo : f.cancelled = false)
    (hintroduced : (f.poll (.handshaking stage) n).2.1.isIntroduced = true) :
    Admits name limit n (f.poll (.handshaking stage) n) := by
  cases h with
  | apart _ _ haccount =>
    cases haccount with
    | fresh hpresence => rcases hpresence with h | h | h <;> cases h
    | shaking hstate _ hshakes =>
      have henters := enters_pollHandshake (n := n) hshakes hname hstate
      rw [hgo] at henters
      exact admits_of_enters henters hclient hintroduced
    | silent hpresence => obtain h | h | ⟨⟨_, h⟩, -⟩ := hpresence <;> cases h

end Flow

end Parley.Chat
