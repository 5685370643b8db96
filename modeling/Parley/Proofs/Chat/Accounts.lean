import Parley.Proofs.Chat.Greeting
import Parley.Proofs.Chat.Routing
import Parley.Proofs.Chat.Running
import Parley.Proofs.Chat.Steps

/-!
# Accounts

All lines that a server passes on are in one order, and each flow gets a contiguous part
of them: those that were passed on while it had a route. The account of a flow says how
what it has written relates to the log of what was passed on, in every state of its life.

- `Segment`: the part of a log that a flow could hear.
- `Flow.Account`: what a flow has written, where it stands.
- `Flow.account_serveAll`: what other flows do changes no account.
- `Flow.Accounts`: the account after a flow asked for things, for each thing that a flow
  can do: `accounts_start`, `accounts_poll`, `accounts_abandon`, `account_handshake`, ….
-/

namespace Parley.Chat

open Wire

/-! ## Parts of a log -/

/-- The relays before, during and after the time in which a flow has a route. -/
structure Segment (id : FlowId) (log before during after : List Relay) : Prop where
  log_eq : log = before ++ during ++ after
  before : ∀ relay ∈ before, id ∉ relay.ids
  during : ∀ relay ∈ during, id ∈ relay.ids
  after : ∀ relay ∈ after, id ∉ relay.ids

namespace Segment

variable {id : FlowId} {log before during after more : List Relay}

/-- A flow that was never reached. -/
theorem of_unheard (h : ∀ relay ∈ log, id ∉ relay.ids) : Segment id log log [] [] where
  log_eq := by rw [List.append_nil, List.append_nil]
  before := h
  during := List.forall_mem_nil _
  after := List.forall_mem_nil _

theorem append_during (h : Segment id log before during [])
    (hmore : ∀ relay ∈ more, id ∈ relay.ids) :
    Segment id (log ++ more) before (during ++ more) [] where
  log_eq := by
    rw [h.log_eq, List.append_nil, List.append_nil, List.append_assoc]
  before := h.before
  during := List.forall_mem_append.2 ⟨h.during, hmore⟩
  after := h.after

theorem append_after (h : Segment id log before during after)
    (hmore : ∀ relay ∈ more, id ∉ relay.ids) :
    Segment id (log ++ more) before during (after ++ more) where
  log_eq := by rw [h.log_eq, List.append_assoc]
  before := h.before
  during := h.during
  after := List.forall_mem_append.2 ⟨h.after, hmore⟩

end Segment

/-- A flow without a route, to which nothing was ever passed on. -/
structure Unheard (n : Node) (log : List Relay) (id : FlowId) : Prop where
  unrouted : id ∉ n.router.ids
  never : ∀ relay ∈ log, id ∉ relay.ids

theorem Unheard.serveAll {n : Node} {log : List Relay} {id : FlowId} {requests : List Request}
    (h : Unheard n log id) (hspares : n.SparesAll id requests) :
    Unheard (n.serveAll requests) (log ++ n.relaysAll requests) id := by
  obtain ⟨hunrouted, hmore⟩ := Node.unrouted_serveAll h.unrouted hspares
  exact ⟨hunrouted, List.forall_mem_append.2 ⟨h.never, hmore⟩⟩

/-! ## Accounts -/

namespace Flow

/-- A flow that takes lines from its queue: of those that were passed on since it has a
route, it took some from the front, and the others wait. -/
structure Queues (name : String) (limit : Nat) (n : Node) (log : List Relay) (number : Nat)
    (f : Flow) (signatures names : Nat) (before during : List Relay)
    (taken waiting : List String) : Prop where
  segment : Segment f.id log before during []
  serves : n.router.Serves f.id number waiting
  lines_eq : during.map Relay.line = taken ++ waiting
  out : f.link.out = greeting name signatures names ++ frameLines taken
  active : f.state = .active
  introduced : f.isIntroduced = true
  signatures_pos : 1 ≤ signatures
  signatures_le : signatures ≤ limit
  names_pos : 1 ≤ names
  names_le : names ≤ limit

/-- A flow that will not take lines any more. -/
structure Silent (name : String) (limit : Nat) (n : Node) (log : List Relay) (f : Flow)
    (signatures names : Nat) (before during after : List Relay) (taken : List String) : Prop where
  segment : Segment f.id log before during after
  unrouted : f.id ∉ n.router.ids
  taken_prefix : taken <+: during.map Relay.line
  out : f.link.out = greeting name signatures names ++ frameLines taken
  started : f.state ≠ .created
  /-- A handshake would write nothing. -/
  spent : f.isIntroduced = true ∨ f.isDisposed = true
  counts_pos : f.remoteName.isSome = true → 1 ≤ signatures ∧ 1 ≤ names
  signatures_le : signatures ≤ limit
  names_le : names ≤ limit

/-- What a flow has written, where it stands. -/
inductive Account (name : String) (limit : Nat) (n : Node) (log : List Relay) (f : Flow) :
    Presence → Prop
  /-- No run of the flow has got past the handshake. -/
  | fresh {presence : Presence} {signatures names : Nat}
      (hpresence : presence = .connected ∨ presence = .idle ∨ presence = .gone)
      (hunheard : Unheard n log f.id) (hgreets : f.Greets name signatures names)
      (hsignatures : signatures ≤ limit) (hnames : names ≤ limit) :
      Account name limit n log f presence
  | shaking {stage : HandshakeStage} {signatures names : Nat} (hstate : f.state = .handshaking)
      (hunheard : Unheard n log f.id) (hshakes : f.Shakes name limit signatures names stage) :
      Account name limit n log f (.running (.handshaking stage))
  | queued {number : Nat} {sending : SendStage} {receiving : ReceiveStage}
      {signatures names : Nat} {before during : List Relay} {taken waiting : List String}
      (hqueues : f.Queues name limit n log number signatures names before during taken waiting)
      (hready : sending.Ready f.link) :
      Account name limit n log f (.running (.pumping (.subscriber number) sending receiving))
  | silent {presence : Presence} {signatures names : Nat} {before during after : List Relay}
      {taken : List String}
      (hpresence : presence = .idle ∨ presence = .gone ∨
        (∃ result, presence = .running (.closing result)) ∧ f.state = .closed ∧ f.isDisposed = true)
      (hsilent : f.Silent name limit n log signatures names before during after taken) :
      Account name limit n log f presence

end Flow

/-- The presence of a flow whose run got this far. -/
def Flow.RunProgress.presence : Flow.RunProgress → Presence
  | .waiting phase => .running phase
  | .finished _ => .idle

namespace Flow

variable {name : String} {limit : Nat} {n : Node} {log : List Relay} {f f' : Flow}
  {presence : Presence} {requests : List Request}

/-- What others ask of the server changes no account. -/
theorem account_serveAll (h : f.Account name limit n log presence) (hwf : n.router.WellFormed)
    (hspares : n.SparesAll f.id requests) :
    f.Account name limit (n.serveAll requests) (log ++ n.relaysAll requests) presence := by
  cases h with
  | fresh hpresence hunheard hgreets hsignatures hnames =>
    exact .fresh hpresence (hunheard.serveAll hspares) hgreets hsignatures hnames
  | shaking hstate hunheard hshakes => exact .shaking hstate (hunheard.serveAll hspares) hshakes
  | queued hqueues hready =>
    -- All that is passed on meanwhile goes to this flow, which has a route.
    obtain ⟨hserves, hmore⟩ := Node.serves_serveAll hqueues.serves hwf hspares
    refine .queued ⟨hqueues.segment.append_during hmore, hserves, ?_, hqueues.out,
      hqueues.active, hqueues.introduced, hqueues.signatures_pos, hqueues.signatures_le,
      hqueues.names_pos, hqueues.names_le⟩ hready
    rw [List.map_append, hqueues.lines_eq, List.append_assoc]
  | silent hpresence hsilent =>
    obtain ⟨hunrouted, hmore⟩ := Node.unrouted_serveAll hsilent.unrouted hspares
    exact .silent hpresence ⟨hsilent.segment.append_after hmore, hunrouted, hsilent.taken_prefix,
      hsilent.out, hsilent.started, hsilent.spent, hsilent.counts_pos, hsilent.signatures_le,
      hsilent.names_le⟩

theorem account_mono {limit' : Nat} (h : f.Account name limit n log presence)
    (hle : limit ≤ limit') : f.Account name limit' n log presence := by
  cases h with
  | fresh hpresence hunheard hgreets hsignatures hnames =>
    exact .fresh hpresence hunheard hgreets (Nat.le_trans hsignatures hle) (Nat.le_trans hnames hle)
  | shaking hstate hunheard hshakes =>
    exact .shaking hstate hunheard { hshakes with
      signatures_le := Nat.le_trans hshakes.signatures_le hle
      names_le := Nat.le_trans hshakes.names_le hle }
  | queued hqueues hready =>
    exact .queued { hqueues with
      signatures_le := Nat.le_trans hqueues.signatures_le hle
      names_le := Nat.le_trans hqueues.names_le hle } hready
  | silent hpresence hsilent =>
    exact .silent hpresence { hsilent with
      signatures_le := Nat.le_trans hsilent.signatures_le hle
      names_le := Nat.le_trans hsilent.names_le hle }

/-! ### Runs -/

/-- The account after a flow of this number asked for things, of which none concerns the
queues of other flows. -/
structure Accounts (name : String) (limit : Nat) (n : Node) (log : List Relay) (id : FlowId)
    (f' : Flow) (presence : Presence) (requests : List Request) : Prop where
  id_eq : f'.id = id
  account : f'.Account name limit (n.serveAll requests) (log ++ n.relaysAll requests) presence
  spares : ∀ other ≠ id, n.SparesAll other requests

theorem Accounts.of_account (h : f.Account name limit n log presence) :
    Accounts name limit n log f.id f presence [] where
  id_eq := rfl
  account := by
    rw [Node.relaysAll_nil, List.append_nil]
    exact h
  spares _ _ := trivial

/-- What is asked first and what is asked then. -/
theorem Accounts.prepend {id : FlowId} {more : List Request}
    (hspares : ∀ other ≠ id, n.SparesAll other requests)
    (h : Accounts name limit (n.serveAll requests) (log ++ n.relaysAll requests) id f' presence
      more) :
    Accounts name limit n log id f' presence (requests ++ more) where
  id_eq := h.id_eq
  account := by
    rw [Node.serveAll_append, Node.relaysAll_append, ← List.append_assoc]
    exact h.account
  spares other hne := Node.sparesAll_append.2 ⟨hspares other hne, h.spares other hne⟩

/-- The end of a flow writes nothing new. -/
theorem Silent.of_ends {signatures names : Nat} {before during after : List Relay}
    {taken : List String}
    (h : f.Silent name limit n log signatures names before during after taken)
    (hends : f.Ends f') :
    f'.Silent name limit n log signatures names before during after taken where
  segment := hends.id ▸ h.segment
  unrouted := hends.id ▸ h.unrouted
  taken_prefix := h.taken_prefix
  out := hends.out.trans h.out
  started := by rw [hends.state]; exact fun h => nomatch h
  spent := .inr hends.disposed
  counts_pos hsome := h.counts_pos (hends.remoteName ▸ hsome)
  signatures_le := h.signatures_le
  names_le := h.names_le

theorem account_of_conclude {result : FlowResult} {signatures names : Nat}
    {before during after : List Relay} {taken : List String}
    (h : ∀ f', f.Ends f' →
      f'.Silent name limit n log signatures names before during after taken) :
    (f.conclude result).2.Account name limit n log (f.conclude result).1.presence := by
  obtain ⟨f', hends, hresult | hresult⟩ := f.conclude_cases result
  · rw [hresult]
    exact .silent (.inr (.inr ⟨⟨result, rfl⟩, hends.state, hends.disposed⟩)) (h f' hends)
  · rw [hresult]
    exact .silent (.inl rfl) (h f' hends)

/-- A flow that ends before it got a route. -/
theorem silent_of_greets {signatures names : Nat} (hgreets : f.Greets name signatures names)
    (hunheard : Unheard n log f.id) (hsignatures : signatures ≤ limit) (hnames : names ≤ limit)
    (hends : f.Ends f') : f'.Silent name limit n log signatures names log [] [] [] where
  segment := hends.id ▸ Segment.of_unheard hunheard.never
  unrouted := hends.id ▸ hunheard.unrouted
  taken_prefix := List.nil_prefix
  out := by rw [hends.out, hgreets.out, frameLines_nil, List.append_nil]
  started := by rw [hends.state]; exact fun h => nomatch h
  spent := .inr hends.disposed
  counts_pos hsome := by
    rw [hends.remoteName] at hsome
    obtain ⟨hvalidated, hpos, -⟩ := hgreets.named hsome
    exact ⟨hgreets.validated hvalidated, hpos⟩
  signatures_le := hsignatures
  names_le := hnames

section Queueing

variable {number signatures names : Nat} {before during : List Relay}
  {taken waiting : List String}

/-- What a flow asks about its own queue does not concern other flows. -/
theorem Queues.sparesAll
    (h : f.Queues name limit n log number signatures names before during taken waiting)
    (hall : ∀ request ∈ requests, request.IsAbout (.subscriber number)) :
    ∀ id ≠ f.id, n.SparesAll id requests :=
  fun _ hne => Node.sparesAll_of_isAbout h.serves.idOf_eq hne hall

/-- A flow that gives its queue up is silent. -/
theorem Queues.silent
    (h : f.Queues name limit n log number signatures names before during taken waiting) :
    f.Silent name limit (n.closeOutbox (.subscriber number)) log signatures names before during []
      taken where
  segment := h.segment
  unrouted := Node.unrouted_closeOutbox h.serves
  taken_prefix := h.lines_eq ▸ List.prefix_append taken waiting
  out := h.out
  started := by rw [h.active]; exact fun h => nomatch h
  spent := .inl h.introduced
  counts_pos _ := ⟨h.signatures_pos, h.names_pos⟩
  signatures_le := h.signatures_le
  names_le := h.names_le

/-- An account after the own queue was given up. -/
theorem Queues.accounts_closeOutbox
    (h : f.Queues name limit n log number signatures names before during taken waiting)
    (hid : f'.id = f.id)
    (haccount : f'.Account name limit (n.closeOutbox (.subscriber number)) log presence) :
    Accounts name limit n log f.id f' presence [.closeOutbox (.subscriber number)] where
  id_eq := hid
  account := by
    rw [Node.relaysAll_cons, Node.relays_closeOutbox, Node.relaysAll_nil, List.append_nil,
      List.append_nil]
    exact haccount
  spares := h.sparesAll fun request hrequest => by
    obtain rfl := List.mem_singleton.1 hrequest
    rfl

/-- A run that ends with its queue. -/
theorem Queues.accounts_conclude
    (h : f.Queues name limit n log number signatures names before during taken waiting)
    (result : FlowResult) :
    Accounts name limit n log f.id (f.conclude result).2 (f.conclude result).1.presence
      [.closeOutbox (.subscriber number)] :=
  h.accounts_closeOutbox (id_conclude result f) (account_of_conclude fun _ => h.silent.of_ends)

theorem isAbout_converse (outbox : Outbox) (left heard : List String) (f : Flow) :
    ∀ request ∈ Request.setPending outbox left :: f.consumeAll heard, request.IsAbout outbox := by
  refine List.forall_mem_cons.2 ⟨rfl, fun request hrequest => ?_⟩
  obtain ⟨line, -, rfl⟩ := List.mem_map.1 hrequest
  trivial

/-- Lines that are sent are taken from those that wait, and those that are heard are
passed on, also to this flow. -/
theorem Queues.converse {link : Link} {taken' left : List String}
    (h : f.Queues name limit n log number signatures names before during taken waiting)
    (hwf : n.router.WellFormed) (hwaiting : waiting = taken' ++ left)
    (hout : link.out = f.link.out ++ frameLines taken') (heard : List String) :
    ∃ more, Queues name limit
      (n.serveAll (.setPending (.subscriber number) left :: f.consumeAll heard))
      (log ++ n.relaysAll (.setPending (.subscriber number) left :: f.consumeAll heard)) number
      { f with link } signatures names before (during ++ more) (taken ++ taken')
      (left ++ more.map Relay.line) := by
  -- What is passed on meanwhile includes the lines heard, and goes behind those left.
  have hleft := Node.serves_setPending h.serves left
  have hwf' := Node.wellFormed_serve hwf (.setPending (.subscriber number) left)
  obtain ⟨hserves, hmore⟩ := Node.serves_serveAll hleft hwf'
    (Node.sparesAll_consume _ f.id (f.remoteName.getD "") heard)
  rw [Node.relaysAll_cons, Node.relays_setPending, List.nil_append, Node.serveAll_cons]
  refine ⟨(n.setPending (.subscriber number) left).relaysAll (f.consumeAll heard), ?_⟩
  exact
    { h with
      segment := h.segment.append_during hmore
      serves := hserves
      lines_eq := by
        rw [List.map_append, h.lines_eq, hwaiting]
        simp only [List.append_assoc]
      out := by rw [hout, h.out, frameLines_append, List.append_assoc] }

/-- Going on with both directions. -/
theorem Queues.accounts_pump {sending : SendStage}
    (h : f.Queues name limit n log number signatures names before during taken waiting)
    (hready : sending.Ready f.link) (hwf : n.router.WellFormed) (receiving : ReceiveStage) :
    Accounts name limit n log f.id (f.pump (.subscriber number) sending receiving n).2.1
      (f.pump (.subscriber number) sending receiving n).1.presence
      (f.pump (.subscriber number) sending receiving n).2.2 := by
  have hconverses : Converses n (.subscriber number) f _ := converses_converse hready receiving
  unfold pump
  generalize f.converse (.subscriber number) sending receiving n = result at hconverses ⊢
  cases hconverses with
  | stopped => exact h.accounts_conclude _
  | @went progress taken' left heard link hpending hout hwaiting =>
    rw [Node.pending_of_serves h.serves] at hpending
    obtain ⟨more, hqueues⟩ := h.converse hwf hpending hout heard
    have habout := isAbout_converse (.subscriber number) left heard f
    cases progress with
    | waiting phase =>
      obtain ⟨sending', receiving', rfl, hready'⟩ := hwaiting phase rfl
      exact ⟨rfl, .queued hqueues hready', h.sparesAll habout⟩
    | finished result => exact (hqueues.accounts_conclude result).prepend (h.sparesAll habout)

end Queueing

section Unheard

variable {signatures names : Nat}

/-- A run that ends before the flow got a route asks for nothing. -/
theorem accounts_conclude (hgreets : f.Greets name signatures names) (hunheard : Unheard n log f.id)
    (hsignatures : signatures ≤ limit) (hnames : names ≤ limit) (result : FlowResult) :
    Accounts name limit n log f.id (f.conclude result).2 (f.conclude result).1.presence [] := by
  rw [← id_conclude result f]
  exact .of_account (account_of_conclude fun _ hends =>
    silent_of_greets hgreets hunheard hsignatures hnames hends)

/-- A flow that becomes active opens a queue, into which nothing was put yet. -/
theorem accounts_activate (hunheard : Unheard n log f.id) (hgreets : f.Greets name signatures names)
    (hsignatures : signatures ≤ limit) (hnames : names ≤ limit)
    (hintroduced : f.isIntroduced = true)
    (hserver : n.IsServer) (hwf : n.router.WellFormed) :
    Accounts name limit n log f.id (f.activate n).2.1 (f.activate n).1.presence
      (f.activate n).2.2 := by
  obtain ⟨number, n', hopen, hserves⟩ := Node.exists_openOutbox hserver f.id
  have hn' : n.serve (.openOutbox f.id) = n' := congrArg Prod.snd hopen
  obtain ⟨hvalidated, hnamed⟩ := Bool.and_eq_true_iff.1 hintroduced
  obtain ⟨-, hpos, hempty⟩ := hgreets.named hnamed
  have hqueues : Queues name limit n' log number { f with state := .active } signatures names
      log [] [] [] :=
    { segment := Segment.of_unheard hunheard.never
      serves := hserves
      lines_eq := rfl
      out := by rw [frameLines_nil, List.append_nil]; exact hgreets.out
      active := rfl
      introduced := hintroduced
      signatures_pos := hgreets.validated hvalidated
      signatures_le := hsignatures
      names_pos := hpos
      names_le := hnames }
  have hwf' : n'.router.WellFormed := hn' ▸ Node.wellFormed_serve hwf (.openOutbox f.id)
  have hpump := hqueues.accounts_pump (show SendStage.idle.Ready _ from hempty) hwf' .probing
  have hspares : ∀ other ≠ f.id, n.SparesAll other [.openOutbox f.id] :=
    fun other hne => ⟨hne, trivial⟩
  have hactivate : f.activate n =
      ((pump (.subscriber number) .idle .probing { f with state := .active } n').1,
        (pump (.subscriber number) .idle .probing { f with state := .active } n').2.1,
        [.openOutbox f.id] ++
          (pump (.subscriber number) .idle .probing { f with state := .active } n').2.2) := by
    rw [activate, hopen]
    rfl
  rw [hactivate]
  refine Accounts.prepend hspares ?_
  rw [Node.serveAll_cons, Node.serveAll_nil, Node.relaysAll_cons, Node.relays_openOutbox,
    Node.relaysAll_nil, List.append_nil, List.append_nil, hn']
  exact hpump

end Unheard

/-- A run that is still at its handshake. -/
theorem accounts_of_enters {id : FlowId} {cancelled : Bool}
    {result : RunProgress × Flow × List Request}
    (h : Enters name limit n id cancelled result) (hunheard : Unheard n log id)
    (hserver : n.IsServer) (hwf : n.router.WellFormed) :
    Accounts name limit n log id result.2.1 result.1.presence result.2.2 := by
  cases h with
  | waits hid hstate hshakes =>
    subst hid
    exact .of_account (.shaking hstate hunheard hshakes)
  | ends hid hgreets hsignatures hnames _ result =>
    subst hid
    exact accounts_conclude hgreets hunheard hsignatures hnames result
  | activates hid hgreets hsignatures hnames hintroduced =>
    subst hid
    exact accounts_activate hunheard hgreets hsignatures hnames hintroduced hserver hwf

/-- A run of an idle flow begins only if that is its first. -/
theorem accounts_start_of_idle (h : f.Account name limit n log .idle) (hname : n.name = name)
    (hserver : n.IsServer) (hwf : n.router.WellFormed) :
    Accounts name (limit + 1) n log f.id (f.start n).2.1 (f.start n).1.presence
      (f.start n).2.2 := by
  -- A run that has begun before is refused, and changes nothing.
  have hrefused := Accounts.of_account (account_mono h (Nat.le_succ limit))
  cases hstate : f.state with
  | created =>
    cases h with
    | fresh _ hunheard hgreets hsignatures hnames =>
      exact accounts_of_enters (enters_start hgreets hsignatures hnames hname hstate) hunheard
        hserver hwf
    | silent _ hsilent => exact absurd hstate hsilent.started
  | handshaking | active | closed =>
    unfold start
    rw [hstate]
    exact hrefused

/-- Going on with a run. -/
theorem accounts_poll {phase : Phase} (h : f.Account name limit n log (.running phase))
    (hname : n.name = name) (hserver : n.IsServer) (hwf : n.router.WellFormed) :
    Accounts name limit n log f.id (f.poll phase n).2.1 (f.poll phase n).1.presence
      (f.poll phase n).2.2 := by
  cases h with
  | fresh hpresence => rcases hpresence with h | h | h <;> cases h
  | shaking hstate hunheard hshakes =>
    exact accounts_of_enters (enters_pollHandshake hshakes hname hstate) hunheard hserver hwf
  | queued hqueues hready => exact hqueues.accounts_pump hready hwf _
  | silent hpresence hsilent =>
    obtain h | h | ⟨⟨result, h⟩, hstate, hdisposed⟩ := hpresence
    · cases h
    · cases h
    · cases h
      obtain ⟨f', hends, hpoll | hpoll⟩ := poll_closing_cases hstate hdisposed result n
      · rw [hpoll, ← hends.id]
        exact .of_account (.silent (.inr (.inr ⟨⟨result, rfl⟩, hends.state, hends.disposed⟩))
          (hsilent.of_ends hends))
      · rw [hpoll, ← hends.id]
        exact .of_account (.silent (.inl rfl) (hsilent.of_ends hends))

/-- Giving a run up gives its queue up. -/
theorem accounts_abandon {phase : Phase} (h : f.Account name limit n log (.running phase)) :
    Accounts name limit n log f.id (f.abandon phase).1 .idle (f.abandon phase).2 := by
  cases h with
  | fresh hpresence => rcases hpresence with h | h | h <;> cases h
  | shaking hstate hunheard hshakes =>
    exact .of_account (.fresh (.inr (.inl rfl)) hunheard hshakes.greets hshakes.signatures_le_limit
      hshakes.names_le_limit)
  | queued hqueues hready =>
    exact hqueues.accounts_closeOutbox rfl (.silent (.inl rfl) hqueues.silent)
  | silent hpresence hsilent =>
    obtain h | h | ⟨⟨result, h⟩, hstate, hdisposed⟩ := hpresence
    · cases h
    · cases h
    · cases h
      have hends := ends_releaseWriter hstate hdisposed
      exact .of_account (.silent (.inl rfl) (hsilent.of_ends hends))

/-! ### Between runs -/

/-- A flow on a stream that was not used yet. -/
theorem account_create {id : FlowId} (hunheard : Unheard n log id)
    (hpresence : presence = .connected ∨ presence = .idle) (name : String) (limit : Nat)
    (cancelled : Bool) :
    (create id .idle cancelled).Account name limit n log presence := by
  refine .fresh (hpresence.imp_right .inl) hunheard ?_ (Nat.zero_le limit) (Nat.zero_le limit)
  exact
    { out := rfl
      order := fun _ => rfl
      validated := fun h => nomatch h
      named := fun h => nomatch h
      skip := fun h => nomatch h }

/-- One attempt at the handshake. -/
theorem account_handshake (h : f.Account name limit n log .idle) :
    (f.handshake name).2.Account name (limit + 1) n log .idle := by
  unfold handshake
  cases h with
  | fresh _ hunheard hgreets hsignatures hnames =>
    have hgreeted := greeted_beginHandshake hgreets hsignatures hnames
    have hsame := sameLife_beginHandshake name f
    generalize f.beginHandshake name = result at hgreeted hsame ⊢
    obtain ⟨progress, f'⟩ := result
    have hunheard' : Unheard n log f'.id := hsame.id.symm ▸ hunheard
    cases hgreeted with
    | waiting hshakes =>
      exact .fresh (.inr (.inl rfl)) hunheard' hshakes.greets hshakes.signatures_le_limit
        hshakes.names_le_limit
    | failed hgreets' hsignatures' hnames' =>
      exact .fresh (.inr (.inl rfl)) hunheard' hgreets' hsignatures' hnames'
    | introduced hgreets' hsignatures' hnames' =>
      exact .fresh (.inr (.inl rfl)) hunheard' hgreets' hsignatures' hnames'
  | silent _ hsilent =>
    -- The names are exchanged already, or the stream is given up.
    have hstill : (f.beginHandshake name).2 = f := by
      unfold beginHandshake
      rcases hsilent.spent with hspent | hspent
      · rw [if_pos hspent]
      · rw [if_pos hspent]
        split <;> rfl
    generalize f.beginHandshake name = result at hstill ⊢
    obtain ⟨progress, f'⟩ := result
    obtain rfl : f' = f := hstill
    cases progress <;>
      exact account_mono (.silent (.inl rfl) hsilent) (Nat.le_succ limit)

/-- An idle flow that ends. -/
theorem account_of_ends (h : f.Account name limit n log .idle) (hends : f.Ends f') :
    f'.Account name limit n log .idle := by
  cases h with
  | fresh _ hunheard hgreets hsignatures hnames =>
    exact .silent (.inl rfl) (silent_of_greets hgreets hunheard hsignatures hnames hends)
  | silent _ hsilent => exact .silent (.inl rfl) (hsilent.of_ends hends)

theorem Greets.drop {signatures names : Nat} (h : f.Greets name signatures names) :
    f.drop.Greets name signatures names :=
  { h with }

/-- A flow that nobody runs may be dropped. -/
theorem account_drop (h : f.Account name limit n log presence)
    (hfree : presence = .idle ∨ presence = .connected) :
    f.drop.Account name limit n log .gone := by
  cases h with
  | fresh _ hunheard hgreets hsignatures hnames =>
    exact .fresh (.inr (.inr rfl)) hunheard hgreets.drop hsignatures hnames
  | shaking => rcases hfree with h | h <;> cases h
  | queued => rcases hfree with h | h <;> cases h
  | silent _ hsilent => exact .silent (.inr (.inl rfl)) (hsilent.of_ends ⟨rfl, rfl, rfl, rfl, rfl⟩)

/-- A connection has an account as the flow that it may become. -/
theorem account_idle_of_connected (h : f.Account name limit n log .connected) :
    f.Account name limit n log .idle := by
  cases h with
  | fresh _ hunheard hgreets hsignatures hnames =>
    exact .fresh (.inr (.inl rfl)) hunheard hgreets hsignatures hnames
  | silent hpresence => obtain h | h | ⟨⟨_, h⟩, -⟩ := hpresence <;> cases h

/-- A connection becomes a flow, which gets a number. -/
theorem account_of_connected {id : FlowId} (h : f.Account name limit n log .connected)
    (hunheard : Unheard n log id) (cancelled : Bool) :
    Account name limit n log { f with id, cancelled } .idle := by
  cases h with
  | fresh _ _ hgreets hsignatures hnames =>
    exact .fresh (.inr (.inl rfl)) hunheard { hgreets with } hsignatures hnames
  | silent hpresence => obtain h | h | ⟨⟨_, h⟩, -⟩ := hpresence <;> cases h

/-- A connection that is disposed of can still be run, in vain. -/
theorem account_drop_connected (h : f.Account name limit n log .connected) :
    f.drop.Account name limit n log .connected := by
  cases h with
  | fresh _ hunheard hgreets hsignatures hnames =>
    exact .fresh (.inl rfl) hunheard hgreets.drop hsignatures hnames
  | silent hpresence => obtain h | h | ⟨⟨_, h⟩, -⟩ := hpresence <;> cases h

/-- What happens to a flow without its doing: its life goes on, or ends before it began. -/
structure Stays (f f' : Flow) : Prop where
  id : f'.id = f.id
  out : f'.link.out = f.link.out
  writer : f'.link.writer = f.link.writer
  holding : f'.holding = f.holding
  validated : f'.validated = f.validated
  remoteName : f'.remoteName = f.remoteName
  state : f'.state = f.state ∨ f.state = .created ∧ f'.state = .closed

namespace Stays

variable {signatures names : Nat}

theorem state_of_ne (h : f.Stays f') (hstate : f.state ≠ .created) : f'.state = f.state :=
  h.state.resolve_right fun hcreated => hstate hcreated.1

theorem isDisposed (h : f.Stays f') : f'.isDisposed = f.isDisposed := by
  rw [Flow.isDisposed, Flow.isDisposed, h.holding]

theorem isIntroduced (h : f.Stays f') : f'.isIntroduced = f.isIntroduced := by
  rw [Flow.isIntroduced, Flow.isIntroduced, h.validated, h.remoteName]

theorem greets (h : f.Stays f') (hgreets : f.Greets name signatures names) :
    f'.Greets name signatures names where
  out := h.out.trans hgreets.out
  order := h.validated ▸ hgreets.order
  validated := h.validated ▸ hgreets.validated
  named := by
    rw [h.remoteName, h.validated, h.writer]
    exact hgreets.named
  skip := by
    rw [h.validated, h.writer]
    exact hgreets.skip

theorem reached (h : f.Stays f') {stage : HandshakeStage} (hreached : stage.Reached name f) :
    stage.Reached name f' := by
  cases stage <;>
  · obtain ⟨hvalidated, hclean⟩ := hreached
    refine ⟨h.validated.trans hvalidated, fun hdue => ?_⟩
    rw [h.writer]
    exact hclean hdue

theorem ready (h : f.Stays f') {stage : SendStage} (hready : stage.Ready f.link) :
    stage.Ready f'.link := by
  cases stage with
  | idle => exact (congrArg Writer.queue h.writer).trans hready
  | holding => exact hready
  | flushing => trivial

theorem queues (h : f.Stays f') {number : Nat} {before during : List Relay}
    {taken waiting : List String}
    (hqueues : f.Queues name limit n log number signatures names before during taken waiting) :
    f'.Queues name limit n log number signatures names before during taken waiting :=
  { hqueues with
    segment := h.id.symm ▸ hqueues.segment
    serves := h.id.symm ▸ hqueues.serves
    out := h.out.trans hqueues.out
    active := (h.state_of_ne (by rw [hqueues.active]; exact fun h => nomatch h)).trans
      hqueues.active
    introduced := h.isIntroduced.trans hqueues.introduced }

theorem silent (h : f.Stays f') {before during after : List Relay} {taken : List String}
    (hsilent : f.Silent name limit n log signatures names before during after taken) :
    f'.Silent name limit n log signatures names before during after taken :=
  { hsilent with
    segment := h.id.symm ▸ hsilent.segment
    unrouted := h.id.symm ▸ hsilent.unrouted
    out := h.out.trans hsilent.out
    started := by rw [h.state_of_ne hsilent.started]; exact hsilent.started
    spent := by rw [h.isIntroduced, h.isDisposed]; exact hsilent.spent
    counts_pos := by rw [h.remoteName]; exact hsilent.counts_pos }

theorem account (h : f.Stays f') (haccount : f.Account name limit n log presence) :
    f'.Account name limit n log presence := by
  cases haccount with
  | fresh hpresence hunheard hgreets hsignatures hnames =>
    exact .fresh hpresence (h.id.symm ▸ hunheard) (h.greets hgreets) hsignatures hnames
  | shaking hstate hunheard hshakes =>
    have hstate' : f'.state = .handshaking :=
      (h.state_of_ne (by rw [hstate]; exact fun h => nomatch h)).trans hstate
    exact .shaking hstate' (h.id.symm ▸ hunheard)
      { hshakes with
        greets := h.greets hshakes.greets
        nameless := h.remoteName.trans hshakes.nameless
        reached := h.reached hshakes.reached }
  | queued hqueues hready => exact .queued (h.queues hqueues) (h.ready hready)
  | silent hpresence hsilent =>
    refine .silent ?_ (h.silent hsilent)
    rw [h.state_of_ne hsilent.started, h.isDisposed]
    exact hpresence

end Stays

theorem stays_cancel (f : Flow) : f.Stays f.cancel :=
  ⟨rfl, rfl, rfl, rfl, rfl, rfl, .inl rfl⟩

theorem stays_requestClose (f : Flow) : f.Stays f.requestClose := by
  refine ⟨rfl, rfl, rfl, rfl, rfl, rfl, ?_⟩
  unfold requestClose
  split
  case isTrue hcreated => exact .inr ⟨hcreated, rfl⟩
  case isFalse => exact .inl rfl

theorem stays_happen (f : Flow) (event : Stream.FarEvent) :
    f.Stays { f with link := f.link.happen event } := by
  refine ⟨rfl, ?_, rfl, rfl, rfl, rfl, .inl rfl⟩
  cases event <;> rfl

/-! ### What is written -/

/-- What was written to a flow, behind so many signatures and names, begins the frames for
the lines of its part of the log. -/
structure Writes (name : String) (log : List Relay) (limit : Nat) (f : Flow)
    (signatures names : Nat) (before during after : List Relay) : Prop where
  segment : Segment f.id log before during after
  signatures_le : signatures ≤ limit
  names_le : names ≤ limit
  named : f.remoteName.isSome = true → 1 ≤ signatures ∧ 1 ≤ names
  written_prefix : f.link.stream.written <+:
    greeting name signatures names ++ frameLines (during.map Relay.line)

theorem prefix_frameLines {taken lines : List String} (h : taken <+: lines) :
    frameLines taken <+: frameLines lines := by
  obtain ⟨waiting, rfl⟩ := h
  rw [frameLines_append]
  exact List.prefix_append _ _

/-- What is written begins what was handed to the writer. -/
theorem written_prefix_of_out {l : Link} {handshakes : Bytes} {taken lines : List String}
    (hout : l.out = handshakes ++ frameLines taken) (htaken : taken <+: lines) :
    l.stream.written <+: handshakes ++ frameLines lines := by
  have hwritten : l.stream.written <+: l.out := List.prefix_append ..
  rw [hout] at hwritten
  exact hwritten.trans ((List.prefix_append_right_inj handshakes).2 (prefix_frameLines htaken))

theorem Greets.writes {signatures names : Nat} (h : f.Greets name signatures names)
    (hunheard : Unheard n log f.id) (hsignatures : signatures ≤ limit) (hnames : names ≤ limit) :
    Writes name log limit f signatures names log [] [] where
  segment := .of_unheard hunheard.never
  signatures_le := hsignatures
  names_le := hnames
  named hsome := by
    obtain ⟨hvalidated, hpos, -⟩ := h.named hsome
    exact ⟨h.validated hvalidated, hpos⟩
  written_prefix :=
    written_prefix_of_out (h.out.trans (List.append_nil _).symm) List.nil_prefix

/-- A flow that has an account writes so much and no more. -/
theorem exists_writes (h : f.Account name limit n log presence) :
    ∃ signatures names before during after,
      Writes name log limit f signatures names before during after := by
  cases h with
  | fresh _ hunheard hgreets hsignatures hnames =>
    exact ⟨_, _, _, _, _, hgreets.writes hunheard hsignatures hnames⟩
  | shaking _ hunheard hshakes =>
    exact ⟨_, _, _, _, _, hshakes.greets.writes hunheard hshakes.signatures_le_limit
      hshakes.names_le_limit⟩
  | queued hqueues =>
    exact ⟨_, _, _, _, _, hqueues.segment, hqueues.signatures_le, hqueues.names_le,
      fun _ => ⟨hqueues.signatures_pos, hqueues.names_pos⟩,
      written_prefix_of_out hqueues.out (hqueues.lines_eq ▸ List.prefix_append _ _)⟩
  | silent _ hsilent =>
    exact ⟨_, _, _, _, _, hsilent.segment, hsilent.signatures_le, hsilent.names_le,
      hsilent.counts_pos, written_prefix_of_out hsilent.out hsilent.taken_prefix⟩

end Flow

end Parley.Chat
