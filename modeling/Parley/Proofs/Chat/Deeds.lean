import Mathlib.Logic.Relation
import Parley.Proofs.Chat.Hearing
import Parley.Proofs.Wire.Traffic

/-!
# Deeds of a flow

A flow changes by a few deeds only, and each of them is done under a condition: a name is
taken only behind the signature, lines are sent only by an active flow, and the link is
given up only by a closed one. Whatever a flow is told to do, it does a number of these
deeds, one after the other. What holds of a flow in all its life is shown of each deed.

- `Flow.Deed`: the deeds; `Flow.Does`: a number of them.
- `Phase.Suits`: where a run may stand.
- `Flow.Goes`: what starting a run, or going on with it, comes to.
- `Flow.goes_start`, `Flow.goes_poll`: runs go by deeds.
- `Flow.does_handshake`, `Flow.does_close`: so does what is done to a flow from outside.
-/

namespace Parley.Chat

open Wire

namespace Flow

/-- A flow that has ended for good. -/
structure Over (f : Flow) : Prop where
  state : f.state = .closed
  cancelled : f.cancelled = true
  holding : f.holding = .nothing

/-- A flow that only has to write what is queued. -/
structure Parting (f : Flow) : Prop where
  state : f.state = .closed
  cancelled : f.cancelled = true
  holding : f.holding = .writer

/-- What a flow of a node called `name` does at once. `halted` is whether all flows are
asked to stop. -/
inductive Deed (name : String) (halted : Bool) (f : Flow) : Flow → Prop
  /-- A connection becomes a flow. -/
  | number (id : FlowId) (hstate : f.state = .created) :
      Deed name halted f { f with id, cancelled := halted }
  | begin (hstate : f.state = .created) : Deed name halted f { f with state := .handshaking }
  | offerSignature {count : Nat} {link : Link} (hunvalidated : f.validated = false)
      (hputs : f.link.Puts (List.replicate count signature) link) :
      Deed name halted f { f with link }
  | offerName {count : Nat} {link : Link} (hvalidated : f.validated = true)
      (hnameless : f.remoteName = none)
      (hputs : f.link.Puts (List.replicate count (Text.Utf8.encode name)) link) :
      Deed name halted f { f with link }
  /-- Frames are taken that make no difference to the handshake. -/
  | read {taken : List Bytes} {link : Link} (htakes : f.link.Takes taken link) :
      Deed name halted f { f with link }
  | validate {link : Link} (hunvalidated : f.validated = false)
      (htakes : f.link.Takes [signature] link) :
      Deed name halted f { f with link, validated := true }
  | introduce {payload : Bytes} {link : Link} (hvalidated : f.validated = true)
      (hnameless : f.remoteName = none) (hpayload : payload ≠ [])
      (htakes : f.link.Takes [payload] link) :
      Deed name halted f
        { f with
          link
          localName := some name
          remoteName := some (Text.Utf8.decodeLossy payload) }
  | activate (hstate : f.state = .handshaking) (hintroduced : f.isIntroduced = true) :
      Deed name halted f { f with state := .active }
  | sendLines {lines : List String} {link : Link} (hstate : f.state = .active)
      (hputs : f.link.Puts (lines.map Text.Utf8.encode) link) :
      Deed name halted f { f with link }
  | cancel : Deed name halted f f.cancel
  | close : Deed name halted f { f.cancel with state := .closed }
  /-- What is queued is written. -/
  | flush {link : Link} (hputs : f.link.Puts [] link) : Deed name halted f { f with link }
  /-- A part of the link is given up. -/
  | release {holding : Holding} (hstate : f.state = .closed)
      (hless : f.holding = .nothing → holding = .nothing) : Deed name halted f { f with holding }

/-- What a flow does after and after. -/
def Does (name : String) (halted : Bool) : Flow → Flow → Prop :=
  Relation.ReflTransGen (Deed name halted)

section Does

variable {name : String} {halted : Bool} {f f' f'' : Flow}

theorem Does.refl (f : Flow) : Does name halted f f := Relation.ReflTransGen.refl

theorem Deed.does (h : Deed name halted f f') : Does name halted f f' :=
  Relation.ReflTransGen.single h

theorem Does.trans (h : Does name halted f f') (h' : Does name halted f' f'') :
    Does name halted f f'' :=
  Relation.ReflTransGen.trans h h'

theorem Does.tail (h : Does name halted f f') (h' : Deed name halted f' f'') :
    Does name halted f f'' :=
  Relation.ReflTransGen.tail h h'

end Does

/-! ## Handshakes -/

/-- What half a handshake takes and puts. -/
inductive HalfTrades {α : Type} (l : Link) (payload : Bytes)
    (check : Reception → Except FlowFault α) : Progress α × Link → Prop
  | stopped {progress : Progress α} {count : Nat} {taken : List Bytes} {l' l'' : Link}
      (hputs : l.Puts (List.replicate count payload) l') (htakes : l'.Takes taken l'')
      (hstopped : ∀ a, progress ≠ .finished (.ok a)) : HalfTrades l payload check (progress, l'')
  | answered {a : α} {reception : Reception} {count : Nat} {l' l'' : Link}
      (hputs : l.Puts (List.replicate count payload) l') (htakes : l'.Takes reception.taken l'')
      (hcheck : check reception = .ok a) : HalfTrades l payload check (.finished (.ok a), l'')

theorem halfTrades_exchangeThen {α : Type} (payload : Bytes)
    (check : Reception → Except FlowFault α) (stage : Link.Stage) (l : Link) :
    HalfTrades l payload check (exchangeThen payload check stage l) := by
  have htrades := l.trades_exchange payload stage
  unfold exchangeThen
  generalize l.exchange payload stage = result at htrades ⊢
  cases htrades with
  | @stopped exchange count l' l'' hputs htakes hstopped =>
    match exchange, hstopped with
    | .waiting stage, _ => exact .stopped hputs htakes fun _ h => nomatch h
    | .finished (.error fault), _ => exact .stopped hputs htakes fun _ h => nomatch h
    | .finished (.ok reception), hstopped => exact absurd rfl (hstopped reception)
  | @answered reception count l' l'' hputs htakes =>
    cases hcheck : check reception with
    | error fault =>
      show HalfTrades l payload check (.finished (check reception), l'')
      rw [hcheck]
      exact .stopped hputs htakes fun _ h => nomatch h
    | ok a =>
      show HalfTrades l payload check (.finished (check reception), l'')
      rw [hcheck]
      exact .answered hputs htakes hcheck

/-- Only a frame is accepted as a signature, and only the signature. -/
theorem taken_of_checkSignature {reception : Reception} {u : Unit}
    (h : checkSignature signature reception = .ok u) : reception.taken = [signature] := by
  by_cases hempty : reception.payload = []
  case pos =>
    rw [checkSignature_of_payload hempty] at h
    cases h
  case neg =>
    rw [Reception.taken_of_payload hempty]
    unfold checkSignature at h
    split at h
    · cases h
    · split at h
      · cases h
      case isFalse hsame => rw [Decidable.not_not.1 hsame]

/-- A name is what some frame says. -/
theorem exists_payload_of_checkName {reception : Reception} {other : String}
    (h : checkName reception = .ok other) :
    ∃ payload, payload ≠ [] ∧ reception.taken = [payload] ∧
      other = Text.Utf8.decodeLossy payload := by
  by_cases hempty : reception.payload = []
  case pos =>
    rw [checkName_of_payload hempty] at h
    cases h
  case neg =>
    refine ⟨reception.payload, hempty, Reception.taken_of_payload hempty, ?_⟩
    unfold checkName at h
    split at h <;> cases h
    rfl

end Flow

/-- Whether the handshake of a flow may stand here. -/
def HandshakeStage.Suits (f : Flow) : HandshakeStage → Prop
  | .signature _ => f.validated = false ∧ f.remoteName = none
  | .names _ => f.validated = true ∧ f.remoteName = none

/-- Whether a handshake may have got so far. -/
def Flow.HandshakeProgress.Suits (f : Flow) : Flow.HandshakeProgress → Prop
  | .waiting stage => stage.Suits f
  | .finished (.ok ()) => f.isIntroduced = true
  | .finished (.error _) => True

namespace Flow

variable {name : String} {halted : Bool} {f f' : Flow}

/-- What going on with a handshake comes to. -/
structure Shook (name : String) (halted : Bool) (f : Flow) (result : HandshakeProgress × Flow) :
    Prop where
  does : Does name halted f result.2
  suits : result.1.Suits result.2

theorem isIntroduced_of {remoteName : String} (hvalidated : f.validated = true)
    (hname : f.remoteName = some remoteName) : f.isIntroduced = true := by
  rw [isIntroduced, hvalidated, hname]
  rfl

theorem shook_names (stage : Link.Stage) (hvalidated : f.validated = true)
    (hnameless : f.remoteName = none) : Shook name halted f (f.names name stage) := by
  have htrades := halfTrades_exchangeThen (Text.Utf8.encode name) checkName stage f.link
  unfold Flow.names
  rw [exchangeNames]
  generalize exchangeThen (Text.Utf8.encode name) checkName stage f.link = result at htrades ⊢
  cases htrades with
  | @stopped progress count taken l' l'' hputs htakes hstopped =>
    have hdoes : Does name halted f { f with link := l'' } :=
      (Deed.offerName hvalidated hnameless hputs).does.tail (.read htakes)
    obtain stage | fault | a := progress
    · exact ⟨hdoes, hvalidated, hnameless⟩
    · exact ⟨hdoes, trivial⟩
    · exact absurd rfl (hstopped a)
  | answered hputs htakes hcheck =>
    obtain ⟨payload, hpayload, htaken, rfl⟩ := exists_payload_of_checkName hcheck
    rw [htaken] at htakes
    exact
      { does := (Deed.offerName hvalidated hnameless hputs).does.tail
          (.introduce hvalidated hnameless hpayload htakes)
        suits := isIntroduced_of hvalidated rfl }

theorem shook_shake {stage : HandshakeStage} (hsuits : stage.Suits f) :
    Shook name halted f (f.shake name stage) := by
  cases stage with
  | names stage => exact shook_names stage hsuits.1 hsuits.2
  | signature stage =>
    obtain ⟨hunvalidated, hnameless⟩ := hsuits
    have htrades := halfTrades_exchangeThen signature (checkSignature signature) stage f.link
    rw [shake, exchangeSignature]
    generalize exchangeThen signature (checkSignature signature) stage f.link = result
      at htrades ⊢
    cases htrades with
    | @stopped progress count taken l' l'' hputs htakes hstopped =>
      have hdoes : Does name halted f { f with link := l'' } :=
        (Deed.offerSignature hunvalidated hputs).does.tail (.read htakes)
      obtain stage | fault | a := progress
      · exact ⟨hdoes, hunvalidated, hnameless⟩
      · exact ⟨hdoes, trivial⟩
      · exact absurd rfl (hstopped a)
    | @answered _ _ count l' l'' hputs htakes hcheck =>
      rw [taken_of_checkSignature hcheck] at htakes
      have hdoes : Does name halted f { f with link := l'', validated := true } :=
        (Deed.offerSignature hunvalidated hputs).does.tail (.validate hunvalidated htakes)
      have hshook : Shook name halted { f with link := l'', validated := true }
          (names name .offering { f with link := l'', validated := true }) :=
        shook_names .offering rfl hnameless
      exact ⟨hdoes.trans hshook.does, hshook.suits⟩

/-- A handshake begins anew with what was not exchanged before. -/
theorem shook_beginHandshake (hnamed : f.remoteName.isSome = true → f.validated = true) :
    Shook name halted f (f.beginHandshake name) := by
  unfold beginHandshake
  split
  case isTrue hintroduced => exact ⟨.refl f, hintroduced⟩
  case isFalse hstranger =>
    split
    · exact ⟨.refl f, trivial⟩
    · have hnameless : f.remoteName = none := by
        cases hname : f.remoteName with
        | none => rfl
        | some other => exact absurd (isIntroduced_of (hnamed (by rw [hname]; rfl)) hname) hstranger
      unfold firstStage
      split
      case isTrue hvalidated => exact shook_names .offering hvalidated hnameless
      case isFalse hunvalidated =>
        exact shook_shake ⟨by simpa using hunvalidated, hnameless⟩

theorem does_handshake (hnamed : f.remoteName.isSome = true → f.validated = true) :
    Does name halted f (f.handshake name).2 := by
  have hshook : Shook name halted f (f.beginHandshake name) := shook_beginHandshake hnamed
  unfold handshake
  generalize f.beginHandshake name = result at hshook ⊢
  obtain ⟨_ | _, f'⟩ := result <;> exact hshook.does

/-! ## Closing -/

/-- What closing a flow comes to: its link is given up, or the writer still has to write. -/
structure Closes (name : String) (halted : Bool) (f : Flow) (result : Attempt Unit × Flow) :
    Prop where
  does : Does name halted f result.2
  ended : result.1 = .done () → result.2.Over
  parting : result.1 = .waiting → result.2.Parting

theorem closes_finishClosing (name : String) (halted : Bool) {f : Flow} (hstate : f.state = .closed)
    (hcancelled : f.cancelled = true) (hreader : f.holding ≠ .both) :
    Closes name halted f f.finishClosing := by
  unfold finishClosing
  split
  case isFalse hwriter =>
    refine ⟨.refl f, fun _ => ⟨hstate, hcancelled, ?_⟩, fun h => nomatch h⟩
    cases hholding : f.holding with
    | both => exact absurd hholding hreader
    | writer => exact absurd hholding hwriter
    | nothing => rfl
  case isTrue hwriter =>
    have hputs := f.link.puts_shutdown
    generalize f.link.shutdown = result at hputs ⊢
    obtain ⟨_ | _, link⟩ := result
    · exact ⟨(Deed.flush hputs).does, fun h => (nomatch h), fun _ => ⟨hstate, hcancelled, hwriter⟩⟩
    · exact ⟨(Deed.flush hputs).does.tail (.release hstate fun _ => rfl),
        fun _ => ⟨hstate, hcancelled, rfl⟩, fun h => nomatch h⟩

/-- Closing begins with the reader. -/
theorem closes_beginClosing (name : String) (halted : Bool) (f : Flow) :
    Closes name halted f f.beginClosing := by
  let parted : Flow :=
    { f.cancel with
      state := .closed
      holding := if f.holding = .both then .writer else f.holding }
  have hparted : Does name halted f parted := by
    refine Deed.close.does.tail (.release rfl ?_)
    intro hnothing
    replace hnothing : f.holding = .nothing := hnothing
    rw [hnothing]
    rfl
  have hreader : parted.holding ≠ .both := by
    show (if f.holding = .both then Holding.writer else f.holding) ≠ .both
    cases f.holding <;> decide
  have hcloses : Closes name halted parted parted.finishClosing :=
    closes_finishClosing name halted rfl rfl hreader
  exact ⟨hparted.trans hcloses.does, hcloses.ended, hcloses.parting⟩

theorem deed_releaseWriter (hstate : f.state = .closed) : Deed name halted f f.releaseWriter := by
  refine .release hstate fun hnothing => ?_
  rw [hnothing]
  rfl

theorem does_close (f : Flow) : Does name halted f f.close.2 := by
  have hcloses := f.closes_beginClosing name halted
  exact hcloses.does.tail (deed_releaseWriter f.ends_beginClosing.state)

theorem does_requestClose (f : Flow) : Does name halted f f.requestClose := by
  unfold requestClose
  split
  · exact Deed.close.does
  · exact Deed.cancel.does

theorem does_drop (f : Flow) : Does name halted f f.drop :=
  Deed.close.does.tail (.release rfl fun _ => rfl)

theorem over_drop (f : Flow) : f.drop.Over := ⟨rfl, rfl, rfl⟩

end Flow

/-! ## Runs -/

/-- Whether the run of a flow may stand here. -/
def Phase.Suits (f : Flow) : Phase → Prop
  | .handshaking stage => f.state = .handshaking ∧ stage.Suits f
  | .pumping .. => f.state = .active ∧ f.isIntroduced = true
  | .closing _ => f.Parting

/-- Whether the run of a flow may have got so far. -/
def Flow.RunProgress.Suits (f : Flow) : Flow.RunProgress → Prop
  | .waiting phase => phase.Suits f
  | .finished _ => f.Over

namespace Flow

/-- What starting a run, or going on with it, comes to: some deeds, and nothing that is
asked of the node before the peer has a name. -/
structure Goes (name : String) (halted : Bool) (f : Flow)
    (result : RunProgress × Flow × List Request) : Prop where
  does : Does name halted f result.2.1
  suits : result.1.Suits result.2.1
  asks : result.2.1.remoteName = none → result.2.2 = []

variable {name : String} {halted : Bool} {f f' : Flow}

theorem Goes.of_does {result : RunProgress × Flow × List Request} (h : Does name halted f f')
    (h' : Goes name halted f' result) : Goes name halted f result :=
  ⟨h.trans h'.does, h'.suits, h'.asks⟩

/-- A name that is known stays. -/
theorem Deed.remoteName_of_isSome (h : Deed name halted f f')
    (hname : f.remoteName.isSome = true) : f'.remoteName = f.remoteName := by
  cases h with
  | introduce _ hnameless =>
    rw [hnameless] at hname
    cases hname
  | number | begin | offerSignature | offerName | read | validate | activate | sendLines | cancel
  | close | flush | release => rfl

theorem Does.remoteName_of_isSome (h : Does name halted f f') (hname : f.remoteName.isSome = true) :
    f'.remoteName = f.remoteName := by
  induction h with
  | refl => rfl
  | tail _ hdeed ih => exact (hdeed.remoteName_of_isSome (ih ▸ hname)).trans ih

theorem isSome_of_isIntroduced (h : f.isIntroduced = true) : f.remoteName.isSome = true :=
  (Bool.and_eq_true_iff.1 h).2

/-- A flow that has had its handshake may ask for anything. -/
theorem Goes.of_introduced {progress : RunProgress} {requests : List Request}
    (hintroduced : f.isIntroduced = true) (hdoes : Does name halted f f')
    (hsuits : progress.Suits f') : Goes name halted f (progress, f', requests) := by
  refine ⟨hdoes, hsuits, fun hnameless => ?_⟩
  have hsome := isSome_of_isIntroduced hintroduced
  rw [← hdoes.remoteName_of_isSome hsome, hnameless] at hsome
  cases hsome

theorem suits_conclude (name : String) (halted : Bool) (result : FlowResult) (f : Flow) :
    Does name halted f (f.conclude result).2 ∧
      (f.conclude result).1.Suits (f.conclude result).2 := by
  have hcloses := f.closes_beginClosing name halted
  unfold conclude
  generalize f.beginClosing = closing at hcloses ⊢
  obtain ⟨_ | _, f'⟩ := closing
  · exact ⟨hcloses.does, hcloses.parting rfl⟩
  · exact ⟨hcloses.does, hcloses.ended rfl⟩

theorem goes_conclude (result : FlowResult) (f : Flow) :
    Goes name halted f ((f.conclude result).1, (f.conclude result).2, []) := by
  obtain ⟨hdoes, hsuits⟩ := f.suits_conclude name halted result
  exact ⟨hdoes, hsuits, fun _ => rfl⟩

/-! ### Lines -/

theorem exists_puts_sendLines (ended : Bool) (lines : List String) (l : Link) :
    ∃ sent : List String, l.Puts (sent.map Text.Utf8.encode) (sendLines ended lines l).2.2 := by
  induction lines generalizing l with
  | nil => exact ⟨[], .refl l⟩
  | cons line lines ih =>
    obtain ⟨count, hputs⟩ := l.exists_puts_send (Text.Utf8.encode line)
    rw [← List.map_replicate] at hputs
    rw [sendLines]
    split
    · exact ih l
    · generalize l.send (Text.Utf8.encode line) = result at hputs ⊢
      obtain ⟨_ | _ | _ | _, l'⟩ := result
      case finished.ok =>
        obtain ⟨sent, hputs'⟩ := ih l'
        refine ⟨List.replicate count line ++ sent, ?_⟩
        rw [List.map_append]
        exact hputs.trans hputs'
      all_goals exact ⟨_, hputs⟩

theorem exists_puts_pumpOut (ended : Bool) (stage : SendStage) (lines : List String) (l : Link) :
    ∃ sent : List String, l.Puts (sent.map Text.Utf8.encode) (pumpOut ended stage lines l).2.2 := by
  have hgoesOn : ∀ (l' : Link) (before : List String), l.Puts (before.map Text.Utf8.encode) l' →
      ∃ sent : List String,
        l.Puts (sent.map Text.Utf8.encode) (sendLines ended lines l').2.2 := by
    intro l' before hputs
    obtain ⟨sent, hputs'⟩ := exists_puts_sendLines ended lines l'
    refine ⟨before ++ sent, ?_⟩
    rw [List.map_append]
    exact hputs.trans hputs'
  cases stage with
  | idle => exact exists_puts_sendLines ended lines l
  | holding line =>
    obtain ⟨count, hputs⟩ := l.exists_puts_send (Text.Utf8.encode line)
    rw [← List.map_replicate] at hputs
    rw [pumpOut]
    generalize l.send (Text.Utf8.encode line) = result at hputs ⊢
    match result with
    | (.held, l') | (.queued, l') | (.finished (.error _), l') => exact ⟨_, hputs⟩
    | (.finished (.ok ()), l') => exact hgoesOn l' _ hputs
  | flushing =>
    have hputs := l.puts_flush
    rw [pumpOut]
    generalize l.flush = result at hputs ⊢
    match result with
    | (.waiting, l') | (.done (.error _), l') => exact ⟨[], hputs⟩
    | (.done (.ok ()), l') => exact hgoesOn l' [] hputs

theorem exists_takes_readLine (l : Link) : ∃ taken, l.Takes taken (readLine l).2 := by
  have htakes := l.takes_receive
  unfold readLine
  generalize l.receive = received at htakes ⊢
  obtain ⟨_ | reception, l'⟩ := received
  · exact ⟨_, htakes⟩
  · dsimp only
    split <;> exact ⟨_, htakes⟩

theorem exists_takes_probeLine (l : Link) : ∃ taken, l.Takes taken (probeLine l).2 := by
  have htakes := l.takes_awaitData
  unfold probeLine
  generalize l.awaitData = probed at htakes ⊢
  match probed with
  | (.waiting, l') | (.done (.error _), l') | (.done (.ok false), l') => exact ⟨_, htakes⟩
  | (.done (.ok true), l') =>
    obtain ⟨taken, htakes'⟩ := exists_takes_readLine l'
    exact ⟨_, htakes.trans htakes'⟩

theorem exists_takes_receiveLines (room : Nat) (stage : ReceiveStage) (l : Link) :
    ∃ taken, l.Takes taken (receiveLines room stage l).2.2 := by
  induction room generalizing stage l with
  | zero => exact ⟨[], .refl l⟩
  | succ room ih =>
    have hline : ∃ taken, l.Takes taken (nextLine stage l).2 := by
      cases stage with
      | probing => exact exists_takes_probeLine l
      | reading => exact exists_takes_readLine l
    rw [receiveLines_succ]
    generalize nextLine stage l = result at hline ⊢
    obtain ⟨taken, htakes⟩ := hline
    obtain ⟨stopped | line, l'⟩ := result
    · exact ⟨taken, htakes⟩
    · obtain ⟨taken', htakes'⟩ := ih .probing l'
      exact ⟨taken ++ taken', htakes.trans htakes'⟩

/-- Going on with both directions sends lines, and takes frames. -/
theorem does_converse (name : String) (halted : Bool) (outbox : Outbox) (sending : SendStage)
    (receiving : ReceiveStage) (n : Node) (hstate : f.state = .active) :
    Does name halted f (f.converse outbox sending receiving n).2.1 ∧
      ∀ phase, (f.converse outbox sending receiving n).1 = .waiting phase →
        (∃ sending receiving, phase = .pumping outbox sending receiving) ∧
          ∃ link, (f.converse outbox sending receiving n).2.1 = { f with link } := by
  unfold converse
  split
  · exact ⟨.refl f, fun phase h => nomatch h⟩
  · obtain ⟨sent, hputs⟩ :=
      exists_puts_pumpOut (n.isEnded outbox) sending (n.pending outbox) f.link
    generalize pumpOut (n.isEnded outbox) sending (n.pending outbox) f.link = result at hputs ⊢
    obtain ⟨sent', left, link⟩ := result
    have hsends : Deed name halted f { f with link } := .sendLines hstate hputs
    cases sent' with
    | finished result => exact ⟨hsends.does, fun phase h => nomatch h⟩
    | waiting sending' =>
      obtain ⟨taken, htakes⟩ : ∃ taken, link.Takes taken (pumpIn receiving link).2.2 :=
        exists_takes_receiveLines _ receiving link
      dsimp only
      generalize pumpIn receiving link = received at htakes ⊢
      obtain ⟨received', heard, link'⟩ := received
      have hreads : Deed name halted { f with link } { f with link := link' } := .read htakes
      have hboth : Does name halted f { f with link := link' } := hsends.does.tail hreads
      cases received' with
      | finished result => exact ⟨hboth, fun phase h => nomatch h⟩
      | waiting receiving' =>
        refine ⟨hboth, fun phase hphase => ?_⟩
        cases hphase
        exact ⟨⟨_, _, rfl⟩, _, rfl⟩

theorem goes_pump (outbox : Outbox) (sending : SendStage) (receiving : ReceiveStage) (n : Node)
    (hstate : f.state = .active) (hintroduced : f.isIntroduced = true) :
    Goes name halted f (f.pump outbox sending receiving n) := by
  obtain ⟨hdoes, hwaiting⟩ :=
    does_converse name halted outbox sending receiving n hstate
  unfold pump
  generalize f.converse outbox sending receiving n = result at hdoes hwaiting ⊢
  obtain ⟨phase | result, f', requests⟩ := result
  · obtain ⟨⟨sending', receiving', rfl⟩, link, rfl⟩ := hwaiting phase rfl
    exact .of_introduced hintroduced hdoes ⟨hstate, hintroduced⟩
  · obtain ⟨hcloses, hsuits⟩ := f'.suits_conclude name halted result
    exact .of_introduced hintroduced (hdoes.trans hcloses) hsuits

theorem goes_activate (n : Node) (hstate : f.state = .handshaking)
    (hintroduced : f.isIntroduced = true) : Goes name halted f (f.activate n) := by
  have hactive : Does name halted f { f with state := .active } :=
    (Deed.activate hstate hintroduced).does
  unfold activate
  dsimp only
  split
  case h_1 outbox n' _ =>
    have hgoes : Goes name halted { f with state := .active }
        (pump outbox .idle .probing { f with state := .active } n') :=
      goes_pump outbox .idle .probing n' rfl hintroduced
    exact .of_introduced hintroduced (hactive.trans hgoes.does) hgoes.suits
  case h_2 fault n' _ =>
    obtain ⟨hcloses, hsuits⟩ :=
      suits_conclude name halted (.error fault) { f with state := .active }
    exact .of_introduced hintroduced (hactive.trans hcloses) hsuits

theorem goes_afterHandshake {progress : HandshakeProgress} (n : Node)
    (hstate : f.state = .handshaking) (hsuits : progress.Suits f) :
    Goes name halted f (f.afterHandshake progress n) := by
  match progress, hsuits with
  | .waiting stage, hsuits =>
    exact ⟨.refl f, ⟨hstate, hsuits⟩, fun _ => rfl⟩
  | .finished (.ok ()), hintroduced => exact goes_activate n hstate hintroduced
  | .finished (.error fault), _ => exact goes_conclude (.error fault) f

/-- A run that is begun. -/
theorem goes_start (n : Node) (hname : n.name = name) (hstate : f.state = .created)
    (hnamed : f.remoteName.isSome = true → f.validated = true) :
    Goes name halted f (f.start n) := by
  have hbegins : Does name halted f { f with state := .handshaking } := (Deed.begin hstate).does
  unfold start
  rw [hstate]
  dsimp only
  split
  · exact (goes_conclude (.ok ()) { f with state := .handshaking }).of_does hbegins
  · have hshook : Shook name halted { f with state := .handshaking }
        (beginHandshake n.name { f with state := .handshaking }) :=
      hname ▸ shook_beginHandshake hnamed
    have hsame := sameLife_beginHandshake n.name { f with state := .handshaking }
    generalize beginHandshake n.name { f with state := .handshaking } = result at hshook hsame ⊢
    obtain ⟨progress, f'⟩ := result
    exact (goes_afterHandshake n hsame.state hshook.suits).of_does (hbegins.trans hshook.does)

/-- A flow that was run before is left alone. -/
theorem start_of_ne_created (n : Node) (hstate : f.state ≠ .created) :
    f.start n =
      (.finished (.error (if f.state = .closed then .disposed else .alreadyStarted)), f, []) := by
  unfold start
  cases hstate' : f.state with
  | created => exact absurd hstate' hstate
  | handshaking | active | closed => rfl

theorem goes_pollHandshake {stage : HandshakeStage} (n : Node) (hname : n.name = name)
    (hstate : f.state = .handshaking) (hsuits : stage.Suits f) :
    Goes name halted f (f.pollHandshake stage n) := by
  unfold pollHandshake
  split
  · exact goes_conclude (.ok ()) f
  · have hshook : Shook name halted f (f.shake n.name stage) := hname ▸ shook_shake hsuits
    have hsame := sameLife_shake n.name stage f
    generalize f.shake n.name stage = result at hshook hsame ⊢
    obtain ⟨progress, f'⟩ := result
    exact (goes_afterHandshake n (hsame.state.trans hstate) hshook.suits).of_does hshook.does

/-- A run that goes on. -/
theorem goes_poll {phase : Phase} (n : Node) (hname : n.name = name) (hsuits : phase.Suits f) :
    Goes name halted f (f.poll phase n) := by
  cases phase with
  | handshaking stage => exact goes_pollHandshake n hname hsuits.1 hsuits.2
  | pumping outbox sending receiving => exact goes_pump outbox sending receiving n hsuits.1 hsuits.2
  | closing result =>
    obtain ⟨hstate, hcancelled, hwriter⟩ := hsuits
    have hreader : f.holding ≠ .both := by
      rw [hwriter]
      decide
    have hcloses := closes_finishClosing name halted hstate hcancelled hreader
    rw [poll]
    generalize f.finishClosing = closing at hcloses ⊢
    obtain ⟨_ | _, f'⟩ := closing
    · exact ⟨hcloses.does, hcloses.parting rfl, fun _ => rfl⟩
    · exact ⟨hcloses.does, hcloses.ended rfl, fun _ => rfl⟩

/-- A run that is given up where it stands. -/
theorem does_abandon {phase : Phase} (hsuits : phase.Suits f) :
    Does name halted f (f.abandon phase).1 := by
  cases phase with
  | handshaking stage => exact .refl f
  | pumping outbox sending receiving => exact .refl f
  | closing result => exact (deed_releaseWriter hsuits.state).does

theorem remoteName_abandon (phase : Phase) (f : Flow) :
    (f.abandon phase).1.remoteName = f.remoteName := by
  cases phase <;> rfl

/-- Only a run past the handshake has a queue to give up. -/
theorem asks_abandon {phase : Phase} (hsuits : phase.Suits f)
    (hnameless : (f.abandon phase).1.remoteName = none) : (f.abandon phase).2 = [] := by
  rw [remoteName_abandon] at hnameless
  cases phase with
  | handshaking stage => rfl
  | pumping outbox sending receiving =>
    have hsome := isSome_of_isIntroduced hsuits.2
    rw [hnameless] at hsome
    cases hsome
  | closing result => rfl

end Flow

end Parley.Chat
