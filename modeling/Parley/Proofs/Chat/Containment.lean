import Parley.Proofs.Chat.Life

/-!
# Strangers are contained

A peer is a stranger until it has shown the signature, and nameless until it has said a
name behind it. However often the handshake is tried, given up and tried again, and
whatever arrives, a stranger is sent nothing but signatures, a nameless peer nothing but
signatures and the own name, and neither of them gets anything to the node. What was once
exchanged stays as it is and is not exchanged again.

- `Backs`: frames that say as much of a peer as is known of it.
- `Flow.Contained`: what was taken from a peer and handed to it. Every deed keeps it
  (`Flow.Deed.contained`).
- `Flow.Keeps`: what stays once it was exchanged (`Flow.Endures.keeps`).
- `Session.requestsOfAll`: what the flow of a peer asks of the node.
- `Session.contained_of_mem_peers`: all of this for every session.
-/

namespace Parley.Text.Utf8

theorem ofNat_ne_ff {n : Nat} (h : n < 0xff) : UInt8.ofNat n ≠ 0xff := by
  intro heq
  have hmod : n % 256 = 255 := congrArg UInt8.toNat heq
  omega

/-- No byte of a text is `0xff`. -/
theorem ff_notMem_encode (text : String) : (0xff : UInt8) ∉ encode text := by
  intro hmem
  obtain ⟨c, -, hc⟩ := List.mem_flatMap.1 hmem
  unfold String.utf8EncodeChar at hc
  dsimp only at hc
  split at hc
  · obtain hc := List.mem_singleton.1 hc
    exact ofNat_ne_ff (by omega) hc.symm
  · split at hc
    · simp only [List.mem_cons, List.not_mem_nil, or_false] at hc
      obtain hc | hc := hc <;> exact ofNat_ne_ff (by omega) hc.symm
    · split at hc
      · simp only [List.mem_cons, List.not_mem_nil, or_false] at hc
        obtain hc | hc | hc := hc <;> exact ofNat_ne_ff (by omega) hc.symm
      · simp only [List.mem_cons, List.not_mem_nil, or_false] at hc
        obtain hc | hc | hc | hc := hc <;> exact ofNat_ne_ff (by omega) hc.symm

end Parley.Text.Utf8

namespace Parley.Chat

open Wire

/-- No text has the bytes of the signature. -/
theorem encode_ne_signature (text : String) : Text.Utf8.encode text ≠ signature := by
  intro heq
  refine Text.Utf8.ff_notMem_encode text ?_
  rw [heq]
  decide

theorem greeting_zero_names (name : String) (signatures : Nat) :
    greeting name signatures 0 = copies signatures signature := by
  rw [greeting, copies_zero, List.append_nil]

/-! ## What was taken -/

/-- Frames that say as much of a peer as is known of it: the signature, and behind it a frame
with the name. -/
structure Backs (taken : List Bytes) (validated : Bool) (remoteName : Option String) : Prop where
  signature : validated = true → Chat.signature ∈ taken
  name : ∀ sender, remoteName = some sender → ∃ before between payload behind,
    taken = before ++ Chat.signature :: between ++ payload :: behind ∧ payload ≠ [] ∧
      sender = Text.Utf8.decodeLossy payload

/-- More frames say no less. -/
theorem Backs.append {taken : List Bytes} {validated : Bool} {remoteName : Option String}
    (h : Backs taken validated remoteName) (more : List Bytes) :
    Backs (taken ++ more) validated remoteName where
  signature hvalidated := List.mem_append_left more (h.signature hvalidated)
  name sender hsender := by
    obtain ⟨before, between, payload, behind, htaken, hpayload, hname⟩ := h.name sender hsender
    refine ⟨before, between, payload, behind ++ more, ?_, hpayload, hname⟩
    rw [htaken, List.append_assoc]
    rfl

namespace Flow

/-- What was taken from the peer of a flow, of the bytes that it sent, and what was handed to
it. -/
structure Contained (name : String) (received : Bytes) (f : Flow) : Prop where
  heard : ∃ taken unread,
    f.link.Holds unread ∧ Passes received taken unread ∧ Backs taken f.validated f.remoteName
  stranger : f.validated = false → ∃ count, f.link.out = copies count signature
  nameless : f.remoteName = none → ∃ signatures names,
    f.link.out = greeting name signatures names

section Contained

variable {name : String} {halted : Bool} {received chunk : Bytes} {f f' : Flow}

theorem contained_create (name : String) (id : FlowId) (cancelled : Bool) :
    (create id .idle cancelled).Contained name [] where
  heard := ⟨[], [], Link.holds_ofStream_idle, .refl [], fun h => (nomatch h), fun _ h => nomatch h⟩
  stranger _ := ⟨0, rfl⟩
  nameless _ := ⟨0, 0, rfl⟩

/-- Handing something to the writer takes nothing from the peer. -/
theorem Contained.heard_of_puts (h : f.Contained name received) {sent : List Bytes} {link : Link}
    (hputs : f.link.Puts sent link) :
    ∃ taken unread, link.Holds unread ∧ Passes received taken unread ∧
      Backs taken f.validated f.remoteName := by
  obtain ⟨taken, unread, hholds, hpasses, hbacks⟩ := h.heard
  exact ⟨taken, unread, hholds.of_onlyWrites hputs.writes, hpasses, hbacks⟩

/-- Frames that are taken come behind those taken before. -/
theorem Contained.heard_of_takes (h : f.Contained name received) {taken' : List Bytes}
    {link : Link} (htakes : f.link.Takes taken' link) :
    ∃ taken unread, link.Holds unread ∧ Passes received (taken ++ taken') unread ∧
      Backs taken f.validated f.remoteName := by
  obtain ⟨taken, unread, hholds, hpasses, hbacks⟩ := h.heard
  obtain ⟨rest, hrest, hpasses'⟩ := htakes.passes unread hholds
  exact ⟨taken, rest, hrest, hpasses.trans hpasses', hbacks⟩

theorem Deed.contained (hdeed : Deed name halted f f') (hs : f.Sound name)
    (h : f.Contained name received) : f'.Contained name received := by
  cases hdeed with
  | number | begin | activate | cancel | close | release =>
    exact ⟨h.heard, h.stranger, h.nameless⟩
  | @offerSignature count link hunvalidated hputs =>
    obtain ⟨before, hout⟩ := h.stranger hunvalidated
    have hout' : link.out = copies (before + count) signature := by
      rw [hputs.out, hout, ← copies_eq_flatMap, copies_add]
    exact ⟨h.heard_of_puts hputs, fun _ => ⟨_, hout'⟩,
      fun _ => ⟨_, 0, hout'.trans (greeting_zero_names name _).symm⟩⟩
  | @offerName count link hvalidated hnameless hputs =>
    obtain ⟨signatures, names, hout⟩ := h.nameless hnameless
    refine ⟨h.heard_of_puts hputs, fun hunvalidated => ?_, fun _ => ⟨signatures, names + count, ?_⟩⟩
    · cases hvalidated.symm.trans hunvalidated
    · show link.out = greeting name signatures (names + count)
      rw [hputs.out, hout, ← copies_eq_flatMap, greeting_add_names]
  | read htakes =>
    obtain ⟨taken, unread, hholds, hpasses, hbacks⟩ := h.heard_of_takes htakes
    have hout := htakes.reads.out
    exact ⟨⟨_, unread, hholds, hpasses, hbacks.append _⟩,
      fun hunvalidated => by rw [hout]; exact h.stranger hunvalidated,
      fun hnameless => by rw [hout]; exact h.nameless hnameless⟩
  | @validate link hunvalidated htakes =>
    obtain ⟨taken, unread, hholds, hpasses, -⟩ := h.heard_of_takes htakes
    have hout := htakes.reads.out
    -- A name would have been taken behind the signature only.
    have hstranger : ∀ sender, f.remoteName ≠ some sender := by
      intro sender hsender
      obtain ⟨hvalidated, -⟩ := hs.named (by rw [hsender]; rfl)
      cases hunvalidated.symm.trans hvalidated
    refine ⟨⟨taken ++ [signature], unread, hholds, hpasses, ?_⟩, fun hfalse => (nomatch hfalse),
      fun hnameless => ?_⟩
    · exact ⟨fun _ => List.mem_append_right _ (List.mem_singleton_self _),
        fun sender hsender => absurd hsender (hstranger sender)⟩
    · rw [hout]
      exact h.nameless hnameless
  | @introduce payload link hvalidated hnameless hpayload htakes =>
    obtain ⟨taken, unread, hholds, hpasses, hbacks⟩ := h.heard_of_takes htakes
    have hsignature := hbacks.signature hvalidated
    obtain ⟨before, between, rfl⟩ := List.append_of_mem hsignature
    refine ⟨⟨_, unread, hholds, hpasses, ?_⟩, fun hfalse => ?_, fun hnone => (nomatch hnone)⟩
    · refine ⟨fun _ => List.mem_append_left _ hsignature, fun sender hsender => ?_⟩
      exact ⟨before, between, payload, [], rfl, hpayload, (Option.some.inj hsender).symm⟩
    · cases hvalidated.symm.trans hfalse
  | sendLines hstate hputs =>
    have hsome := hs.active hstate
    obtain ⟨hvalidated, -⟩ := hs.named hsome
    refine ⟨h.heard_of_puts hputs, fun hfalse => ?_, fun hnone => ?_⟩
    · cases hvalidated.symm.trans hfalse
    · rw [show f.remoteName = none from hnone] at hsome
      cases hsome
  | flush hputs =>
    have hout := hputs.out.trans (List.append_nil _)
    exact ⟨h.heard_of_puts hputs,
      fun hunvalidated => by rw [hout]; exact h.stranger hunvalidated,
      fun hnameless => by rw [hout]; exact h.nameless hnameless⟩

theorem Does.contained (hdoes : Does name halted f f') (hs : f.Sound name)
    (h : f.Contained name received) : f'.Contained name received := by
  induction hdoes with
  | refl => exact h
  | tail hdoes' hdeed ih => exact hdeed.contained (Does.sound hdoes' hs) ih

theorem out_happen (l : Link) (event : Stream.FarEvent) : (l.happen event).out = l.out := by
  cases event <;> rfl

theorem Lives.contained (hlives : f.Lives name halted chunk f') (hs : f.Sound name)
    (h : f.Contained name received) : f'.Contained name (received ++ chunk) := by
  cases hlives with
  | does hdoes =>
    rw [List.append_nil]
    exact hdoes.contained hs h
  | happens event =>
    have hout := out_happen f.link event
    obtain ⟨taken, unread, hholds, hpasses, hbacks⟩ := h.heard
    refine ⟨⟨taken, _, hholds.happen event, hpasses.append event.chunk, hbacks⟩, ?_, ?_⟩
    · exact fun hunvalidated => by rw [hout]; exact h.stranger hunvalidated
    · exact fun hnameless => by rw [hout]; exact h.nameless hnameless

theorem Endures.sound (h : f.Endures name chunk f') (hs : f.Sound name) : f'.Sound name := by
  induction h with
  | refl => exact hs
  | tail _ hlives ih => exact hlives.sound ih

theorem Endures.contained (h : f.Endures name chunk f') (hs : f.Sound name)
    (hcontained : f.Contained name received) : f'.Contained name (received ++ chunk) := by
  induction h with
  | refl =>
    rw [List.append_nil]
    exact hcontained
  | tail hendures hlives ih =>
    rw [← List.append_assoc]
    exact hlives.contained (hendures.sound hs) ih

end Contained

/-! ## What stays -/

/-- What was exchanged stays as it is, and the signature is not sent again. -/
structure Keeps (f f' : Flow) : Prop where
  validated : f.validated = true → f'.validated = true
  remoteName : f.remoteName ≠ none → f'.remoteName = f.remoteName
  localName : f.remoteName ≠ none → f'.localName = f.localName
  sends : f.validated = true → ∃ sent : List Bytes, signature ∉ sent ∧
    f'.link.out = f.link.out ++ sent.flatMap frameOf

section Keeps

variable {name : String} {halted : Bool} {chunk : Bytes} {f f' f'' : Flow}

/-- A flow at which nothing was sent, and nothing else was changed but its life. -/
theorem keeps_of_eq (hvalidated : f'.validated = f.validated)
    (hremote : f'.remoteName = f.remoteName) (hlocal : f'.localName = f.localName)
    (hout : f'.link.out = f.link.out) : f.Keeps f' :=
  ⟨hvalidated.trans, fun _ => hremote, fun _ => hlocal,
    fun _ => ⟨[], List.not_mem_nil, hout.trans (List.append_nil _).symm⟩⟩

theorem Keeps.trans (h : f.Keeps f') (h' : f'.Keeps f'') : f.Keeps f'' where
  validated hvalidated := h'.validated (h.validated hvalidated)
  remoteName hname := (h'.remoteName (h.remoteName hname ▸ hname)).trans (h.remoteName hname)
  localName hname := (h'.localName (h.remoteName hname ▸ hname)).trans (h.localName hname)
  sends hvalidated := by
    obtain ⟨sent, hsent, hout⟩ := h.sends hvalidated
    obtain ⟨sent', hsent', hout'⟩ := h'.sends (h.validated hvalidated)
    refine ⟨sent ++ sent', fun hmem => ?_, ?_⟩
    · obtain hmem | hmem := List.mem_append.1 hmem
      · exact hsent hmem
      · exact hsent' hmem
    · rw [hout', hout, List.flatMap_append, List.append_assoc]

/-- Texts that are sent are not the signature. -/
theorem keeps_of_texts {texts : List String} {link : Link}
    (hputs : f.link.Puts (texts.map Text.Utf8.encode) link) : f.Keeps { f with link } := by
  refine ⟨fun h => h, fun _ => rfl, fun _ => rfl, fun _ => ⟨_, fun hmem => ?_, hputs.out⟩⟩
  obtain ⟨text, -, htext⟩ := List.mem_map.1 hmem
  exact encode_ne_signature text htext

theorem Deed.keeps (hdeed : Deed name halted f f') : f.Keeps f' := by
  cases hdeed with
  | number | begin | activate | cancel | close | release => exact keeps_of_eq rfl rfl rfl rfl
  | offerSignature hunvalidated =>
    exact ⟨fun h => h, fun _ => rfl, fun _ => rfl, fun hvalidated =>
      nomatch hunvalidated.symm.trans hvalidated⟩
  | offerName _ _ hputs =>
    rw [← List.map_replicate] at hputs
    exact keeps_of_texts hputs
  | read htakes => exact keeps_of_eq rfl rfl rfl htakes.reads.out
  | validate hunvalidated =>
    exact ⟨fun _ => rfl, fun _ => rfl, fun _ => rfl, fun hvalidated =>
      nomatch hunvalidated.symm.trans hvalidated⟩
  | introduce _ hnameless _ htakes =>
    exact ⟨fun h => h, fun hname => absurd hnameless hname, fun hname => absurd hnameless hname,
      fun _ => ⟨[], List.not_mem_nil, htakes.reads.out.trans (List.append_nil _).symm⟩⟩
  | sendLines _ hputs => exact keeps_of_texts hputs
  | flush hputs => exact keeps_of_eq rfl rfl rfl (hputs.out.trans (List.append_nil _))

theorem Does.keeps (hdoes : Does name halted f f') : f.Keeps f' := by
  induction hdoes with
  | refl => exact keeps_of_eq rfl rfl rfl rfl
  | tail _ hdeed ih => exact ih.trans hdeed.keeps

theorem Endures.keeps (h : f.Endures name chunk f') : f.Keeps f' := by
  induction h with
  | refl => exact keeps_of_eq rfl rfl rfl rfl
  | tail _ hlives ih =>
    cases hlives with
    | does hdoes => exact ih.trans hdoes.keeps
    | happens event => exact ih.trans (keeps_of_eq rfl rfl rfl (out_happen _ event))

end Keeps

/-- A handshake that is over does nothing when it is tried again. -/
theorem handshake_of_introduced {f : Flow} (h : f.isIntroduced = true) (name : String) :
    f.beginHandshake name = (.finished (.ok ()), f) ∧ f.handshake name = (.done (.ok ()), f) := by
  have hbegin : f.beginHandshake name = (.finished (.ok ()), f) := if_pos h
  exact ⟨hbegin, by rw [handshake, hbegin]⟩

end Flow

namespace Session

variable {name peer : String} {s : Session} {p : Peer}

/-- All that the flow of a peer asks of the node. -/
def requestsOfAll (peer : String) (s : Session) : List Step → List Request
  | [] => []
  | step :: steps => s.requestsOf peer step ++ (s.follow step).requestsOfAll peer steps

/-- As long as a peer has no name, its flow asks for nothing. -/
theorem exists_silent (h : s.Steady name) (hp : p ∈ s.peers) (steps : List Step)
    (hopens : ∀ step ∈ steps, ¬ step.Opens p.name) :
    ∃ q ∈ (s.followAll steps).peers, q.name = p.name ∧ p.flow.Keeps q.flow ∧
      (q.flow.remoteName = none → s.requestsOfAll p.name steps = []) := by
  induction steps generalizing s p with
  | nil => exact ⟨p, hp, rfl, Flow.keeps_of_eq rfl rfl rfl rfl, fun _ => rfl⟩
  | cons step steps ih =>
    obtain ⟨hstep, hsteps⟩ := List.forall_mem_cons.1 hopens
    obtain ⟨p', hp', hfollows⟩ := exists_follows h hp hstep
    rw [← hfollows.name_eq] at hsteps
    obtain ⟨q, hq, hname, hkeeps, hsilent⟩ := ih (steady_follow h step) hp' hsteps
    have hfirst : p.flow.Keeps p'.flow := (Flow.Endures.tail .refl hfollows.lives).keeps
    rw [hfollows.name_eq] at hname hsilent
    refine ⟨q, hq, hname, hfirst.trans hkeeps, fun hnameless => ?_⟩
    -- A peer that is nameless in the end was nameless after this step.
    have hnameless' : p'.flow.remoteName = none := by
      by_contra hnamed
      exact hnamed ((hkeeps.remoteName hnamed).symm.trans hnameless)
    rw [requestsOfAll, hfollows.silent hnameless', hsilent hnameless]
    rfl

/-- There is a peer when it was opened. -/
theorem exists_isOpened {step : Step} (name : String) (hopens : step.Opens peer) :
    ∃ q ∈ (s.follow step).peers, q.name = peer ∧ IsOpened name s.cancelled q := by
  have hmem : ∃ q ∈ (s.follow step).peers, q.name = peer := by
    obtain rfl | rfl := hopens <;> exact ⟨_, mem_setPeer_self, rfl⟩
  obtain ⟨q, hq, rfl⟩ := hmem
  exact ⟨q, hq, rfl, isOpened_of_opens name hopens hq⟩

/-- What becomes of a flow from when it was opened. -/
theorem exists_endures_opened (h : s.Steady name) {opening : Step} {rest : List Step}
    (hopening : opening.Opens p.name) (hopens : ∀ step ∈ rest, ¬ step.Opens p.name)
    (hp : p ∈ ((s.follow opening).followAll rest).peers) :
    ∃ id, Flow.Endures name (.create id .idle s.cancelled) (received p.name rest) p.flow ∧
      (p.flow.remoteName = none → (s.follow opening).requestsOfAll p.name rest = []) := by
  obtain ⟨p₀, hp₀, hname₀, hopened⟩ := exists_isOpened (s := s) name hopening
  have hs₁ := steady_follow h opening
  have hdistinct := (steady_followAll hs₁ rest).distinct
  rw [← hname₀] at hopens
  obtain ⟨id, hflow⟩ := hopened.flow
  obtain ⟨q, hq, hname, hendures⟩ := exists_endures hs₁ hp₀ rest hopens
  obtain ⟨q', hq', hname', -, hsilent⟩ := exists_silent hs₁ hp₀ rest hopens
  have hsame : q = p := eq_of_name_eq hdistinct hq hp (hname.trans hname₀)
  have hsame' : q' = p := eq_of_name_eq hdistinct hq' hp (hname'.trans hname₀)
  rw [hsame, hname₀, hflow] at hendures
  rw [hsame', hname₀] at hsilent
  exact ⟨id, hendures, hsilent⟩

/-- **Strangers are contained.** From when a flow was opened, and whatever was done since, also
when its run was given up and its handshake begun again: what it knows of the peer was said in
frames that arrived from it, first the signature and then the name; what was written to a
stranger are signatures, to a nameless peer signatures and the own name, and nothing is asked of
the node for it. Whatever is done then, what was exchanged stays as it is and the signature is
not sent again; and a handshake that is over does nothing when it is tried again. -/
theorem contained_of_mem_peers (n : Node) {earlier rest : List Step} {opening : Step}
    {p : Peer} (hopening : opening.Opens p.name) (hopens : ∀ step ∈ rest, ¬ step.Opens p.name)
    (hp : p ∈ ((ofNode n).followAll (earlier ++ opening :: rest)).peers) :
    (∃ taken unread, p.flow.link.Holds unread ∧
        Passes (received p.name rest) taken unread ∧
        Backs taken p.flow.validated p.flow.remoteName) ∧
      (p.flow.validated = false → p.flow.remoteName = none ∧
        ∃ count, p.flow.link.stream.written <+: copies count signature) ∧
      (p.flow.remoteName = none → p.flow.localName = none ∧
        (∃ signatures names,
          p.flow.link.stream.written <+: greeting n.name signatures names) ∧
        ((ofNode n).followAll (earlier ++ [opening])).requestsOfAll p.name rest = []) ∧
      (∀ more, (∀ step ∈ more, ¬ step.Opens p.name) →
        ∃ q, ((ofNode n).followAll (earlier ++ opening :: rest ++ more)).peer? p.name = some q ∧
          p.flow.Keeps q.flow) ∧
      (p.flow.remoteName ≠ none →
        p.flow.beginHandshake n.name = (.finished (.ok ()), p.flow) ∧
          (p.presence = .idle →
            ((ofNode n).followAll (earlier ++ opening :: rest)).perform (.handshake p.name) =
              (.attempt (.done (.ok ())),
                (ofNode n).followAll (earlier ++ opening :: rest)))) := by
  have hs := steady_followAll (steady_ofNode n) (earlier ++ opening :: rest)
  have hsound := (hs.peers p hp).sound
  have hwritten : p.flow.link.stream.written <+: p.flow.link.out := List.prefix_append ..
  have hlives : ∃ id halted,
      Flow.Endures n.name (.create id .idle halted) (received p.name rest) p.flow ∧
        (p.flow.remoteName = none →
          ((ofNode n).followAll (earlier ++ [opening])).requestsOfAll p.name rest = []) := by
    rw [followAll_append, followAll_cons] at hp ⊢
    obtain ⟨id, hendures⟩ :=
      exists_endures_opened (steady_followAll (steady_ofNode n) earlier) hopening hopens hp
    exact ⟨id, _, hendures⟩
  obtain ⟨id, halted, hendures, hsilent⟩ := hlives
  have hcontained :=
    hendures.contained (Flow.sound_create ..) (Flow.contained_create n.name id halted)
  refine ⟨hcontained.heard, fun hunvalidated => ?_, fun hnameless => ?_, fun more hmore => ?_,
    fun hnamed => ?_⟩
  · obtain ⟨count, hout⟩ := hcontained.stranger hunvalidated
    refine ⟨?_, count, hout ▸ hwritten⟩
    by_contra hnamed
    obtain ⟨hvalidated, -⟩ := hsound.named (Option.isSome_iff_ne_none.2 hnamed)
    cases hunvalidated.symm.trans hvalidated
  · obtain ⟨signatures, names, hout⟩ := hcontained.nameless hnameless
    exact ⟨hsound.nameless hnameless, ⟨signatures, names, hout ▸ hwritten⟩, hsilent hnameless⟩
  · obtain ⟨q, hq, hname, hkeeps, -⟩ := exists_silent hs hp more hmore
    rw [followAll_append, ← hname]
    exact ⟨q, peer?_of_mem (steady_followAll hs more).distinct hq, hkeeps⟩
  · obtain ⟨sender, hsender⟩ := Option.ne_none_iff_exists'.1 hnamed
    obtain ⟨hvalidated, -⟩ := hsound.named (by rw [hsender]; rfl)
    obtain ⟨hbegin, hhandshake⟩ :=
      Flow.handshake_of_introduced (Flow.isIntroduced_of hvalidated hsender) n.name
    refine ⟨hbegin, fun hidle => ?_⟩
    rw [perform, withIdle, peer?_of_mem hs.distinct hp, hs.named]
    dsimp only
    split
    case h_1 =>
      rw [hhandshake]
      exact Prod.ext rfl (setPeer_of_mem hs.distinct hp)
    case h_2 hbusy => exact absurd hidle hbusy

/-- A handshake that is given up behind the signature, and tried again when the name has
arrived. -/
def retriedSteps : List Step :=
  [.perform (.farEnd "ann" (.arrive (frameOf signature))), .perform (.handshake "ann"),
    .perform (.farEnd "ann" (.arrive (frameOf (Text.Utf8.encode "ann")))),
    .perform (.handshake "ann")]

/-- The session in which this is done at a client. -/
def retriedSession : Session :=
  (ofNode (.newClient "bob")).followAll ([] ++ .perform (.openFlow "ann") :: retriedSteps)

/-- Both frames were taken, and a third attempt does nothing. -/
theorem exists_contained_retried :
    ∃ p ∈ retriedSession.peers, p.flow.remoteName = some "ann" ∧
      (∃ taken unread, p.flow.link.Holds unread ∧
        Passes (received "ann" retriedSteps) taken unread ∧ Backs taken true (some "ann")) ∧
      retriedSession.perform (.handshake "ann") =
        (.attempt (.done (.ok ())), retriedSession) := by
  have hne : retriedSession.peers ≠ [] := fun h => nomatch h
  have hopens : ∀ step ∈ retriedSteps, ¬ step.Opens "ann" := by
    rintro step hstep (rfl | rfl) <;> simp [retriedSteps] at hstep
  obtain ⟨hheard, -, -, -, hagain⟩ :=
    contained_of_mem_peers (.newClient "bob") (.inl rfl) hopens (List.head_mem hne)
  have hnamed : (retriedSession.peers.head hne).flow.remoteName = some "ann" := rfl
  obtain ⟨-, hidle⟩ := hagain (Option.ne_none_iff_exists'.2 ⟨"ann", hnamed⟩)
  exact ⟨_, List.head_mem hne, hnamed, hheard, hidle rfl⟩

end Session

end Parley.Chat
