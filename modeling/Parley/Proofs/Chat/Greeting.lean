import Parley.Chat.Flow
import Parley.Proofs.Wire.Writing

/-!
# Handshakes

What a flow writes in a handshake is a signature and a name, each at most once in each
attempt, and every signature before the first name. Once names are exchanged all of it
is written.

- `greeting`: the bytes of handshakes.
- `HalfShakes`: what half a handshake hands to the writer.
- `Flow.Greets`: what a flow has written when its last handshake stopped.
- `Flow.Shakes`: where a handshake may go on from.
- `Flow.greeted_shake`, `Flow.greeted_beginHandshake`: every handshake writes so much and no
  more.
- `Flow.Enters`: how far a run gets that is still at its handshake.
-/

namespace Parley.Chat

open Wire

/-- The bytes of handshakes: signatures, and then names. -/
def greeting (name : String) (signatures names : Nat) : Bytes :=
  copies signatures signature ++ copies names (Text.Utf8.encode name)

theorem greeting_add_signatures (name : String) (signatures count : Nat) :
    greeting name signatures 0 ++ copies count signature =
      greeting name (signatures + count) 0 := by
  rw [greeting, greeting, copies_zero, List.append_nil, List.append_nil, copies_add]

theorem greeting_add_names (name : String) (signatures names count : Nat) :
    greeting name signatures names ++ copies count (Text.Utf8.encode name) =
      greeting name signatures (names + count) := by
  rw [greeting, greeting, List.append_assoc, copies_add]

theorem frameOf_signature_ne_nil : frameOf signature ≠ [] := by decide

/-! ## Halves of a handshake -/

/-- What half a handshake hands to the writer. -/
inductive HalfShakes {α : Type} (l : Link) (payload : Bytes) (stage : Link.Stage) :
    Progress α × Link → Prop
  | waiting {l' : Link} {stage' : Link.Stage} {count : Nat}
      (hout : l'.out = l.out ++ copies count payload) (hcount : count + stage'.due = stage.due)
      (hclean : stage.Clean payload l → stage'.Clean payload l') :
      HalfShakes l payload stage (.waiting stage', l')
  | failed {l' : Link} {fault : FlowFault} {count : Nat}
      (hout : l'.out = l.out ++ copies count payload) (hcount : count ≤ stage.due)
      (hskip : frameOf payload = [] → l.writer.queue = [] → l'.writer.queue = []) :
      HalfShakes l payload stage (.finished (.error fault), l')
  | answered {l' : Link} {result : Except FlowFault α}
      (hout : l'.out = l.out ++ copies stage.due payload)
      (hqueue : stage.Clean payload l → l'.writer.queue = []) :
      HalfShakes l payload stage (.finished result, l')

theorem halfShakes_exchangeThen {α : Type} (payload : Bytes)
    (check : Reception → Except FlowFault α) (stage : Link.Stage) (l : Link) :
    HalfShakes l payload stage (exchangeThen payload check stage l) := by
  have hexchanges := l.exchanges_exchange payload stage
  unfold exchangeThen
  generalize l.exchange payload stage = result at hexchanges ⊢
  cases hexchanges with
  | waiting _ hout hcount hclean => exact .waiting hout hcount hclean
  | failed _ hout hcount hskip => exact .failed hout hcount hskip
  | @answered l' _ hout hqueue =>
    obtain ⟨l'', hreads, hresult | ⟨reception, hresult⟩⟩ := l'.exchangeReceive_cases
    · rw [hresult]
      refine .waiting (hreads.out.trans hout) rfl fun hclean _ => ?_
      rw [hreads.writer]
      exact hqueue hclean
    · rw [hresult]
      refine .answered (hreads.out.trans hout) fun hclean => ?_
      rw [hreads.writer]
      exact hqueue hclean

/-! ## Flows -/

namespace HandshakeStage

/-- How many signatures are still to be sent. -/
def signaturesDue : HandshakeStage → Nat
  | .signature stage => stage.due
  | .names _ => 0

/-- How many names are still to be sent. -/
def namesDue : HandshakeStage → Nat
  | .signature _ => 1
  | .names stage => stage.due

/-- Whether a flow may stand here in its handshake. -/
def Reached (name : String) (f : Flow) : HandshakeStage → Prop
  | .signature stage => f.validated = false ∧ stage.Clean Chat.signature f.link
  | .names stage => f.validated = true ∧ stage.Clean (Text.Utf8.encode name) f.link

end HandshakeStage

namespace Flow

/-- What a flow has written in handshakes. -/
structure Greets (name : String) (signatures names : Nat) (f : Flow) : Prop where
  out : f.link.out = greeting name signatures names
  /-- Names come after all signatures. -/
  order : f.validated = false → names = 0
  validated : f.validated = true → 1 ≤ signatures
  named : f.remoteName.isSome = true →
    f.validated = true ∧ 1 ≤ names ∧ f.link.writer.queue = []
  /-- A name that fits no frame is skipped, and does not push out what is queued. -/
  skip : f.validated = true → frameOf (Text.Utf8.encode name) = [] → f.link.writer.queue = []

/-- Where the handshake of a run stands, with at most so many attempts made. -/
structure Shakes (name : String) (limit signatures names : Nat) (stage : HandshakeStage)
    (f : Flow) : Prop where
  greets : f.Greets name signatures names
  nameless : f.remoteName = none
  reached : stage.Reached name f
  signatures_pos : 1 ≤ signatures + stage.signaturesDue
  signatures_le : signatures + stage.signaturesDue ≤ limit
  names_pos : 1 ≤ names + stage.namesDue
  names_le : names + stage.namesDue ≤ limit

/-- So far at most so many signatures and names are written. -/
theorem Shakes.signatures_le_limit {name : String} {limit signatures names : Nat}
    {stage : HandshakeStage} {f : Flow} (h : f.Shakes name limit signatures names stage) :
    signatures ≤ limit :=
  Nat.le_trans (Nat.le_add_right ..) h.signatures_le

theorem Shakes.names_le_limit {name : String} {limit signatures names : Nat}
    {stage : HandshakeStage} {f : Flow} (h : f.Shakes name limit signatures names stage) :
    names ≤ limit :=
  Nat.le_trans (Nat.le_add_right ..) h.names_le

/-- What a handshake leaves as it was. -/
structure SameLife (f f' : Flow) : Prop where
  id : f'.id = f.id
  state : f'.state = f.state
  holding : f'.holding = f.holding
  cancelled : f'.cancelled = f.cancelled

/-- What a handshake comes to. -/
inductive Greeted (name : String) (limit : Nat) : HandshakeProgress × Flow → Prop
  | waiting {stage : HandshakeStage} {f : Flow} {signatures names : Nat}
      (hshakes : f.Shakes name limit signatures names stage) :
      Greeted name limit (.waiting stage, f)
  | failed {fault : FlowFault} {f : Flow} {signatures names : Nat}
      (hgreets : f.Greets name signatures names) (hsignatures : signatures ≤ limit)
      (hnames : names ≤ limit) (hnameless : f.remoteName = none) :
      Greeted name limit (.finished (.error fault), f)
  | introduced {f : Flow} {signatures names : Nat} (hgreets : f.Greets name signatures names)
      (hsignatures : signatures ≤ limit) (hnames : names ≤ limit)
      (hintroduced : f.isIntroduced = true) : Greeted name limit (.finished (.ok ()), f)

variable {name : String} {limit signatures names : Nat} {f : Flow}

theorem sameLife_names (name : String) (stage : Link.Stage) (f : Flow) :
    f.SameLife (f.names name stage).2 := by
  unfold Flow.names
  split <;> exact ⟨rfl, rfl, rfl, rfl⟩

theorem sameLife_shake (name : String) (stage : HandshakeStage) (f : Flow) :
    f.SameLife (f.shake name stage).2 := by
  unfold shake
  split
  · exact sameLife_names ..
  · split
    · exact ⟨rfl, rfl, rfl, rfl⟩
    · exact ⟨rfl, rfl, rfl, rfl⟩
    · obtain ⟨hid, hstate, hholding, hcancelled⟩ := sameLife_names name .offering _
      exact ⟨hid, hstate, hholding, hcancelled⟩

/-- The exchange of names writes the own name, if that is still to be done. -/
theorem greeted_names {stage : Link.Stage}
    (h : f.Shakes name limit signatures names (.names stage)) :
    Greeted name limit (f.names name stage) := by
  obtain ⟨hvalidated, hclean⟩ := h.reached
  have hle : names + stage.due ≤ limit := h.names_le
  have hpos : 1 ≤ names + stage.due := h.names_pos
  have hsignatures : signatures ≤ limit := h.signatures_le
  have hhalf := halfShakes_exchangeThen (Text.Utf8.encode name) checkName stage f.link
  unfold Flow.names
  rw [exchangeNames]
  generalize exchangeThen (Text.Utf8.encode name) checkName stage f.link = result at hhalf ⊢
  -- The counts grow by the frames that were sent; nothing but the link changes.
  have hgreets : ∀ {l' : Link} {count : Nat},
      l'.out = f.link.out ++ copies count (Text.Utf8.encode name) →
        (frameOf (Text.Utf8.encode name) = [] → l'.writer.queue = []) →
          Greets name signatures (names + count) { f with link := l' } := by
    intro l' count hout hskip
    exact
      { out := by rw [hout, h.greets.out, greeting_add_names]
        order := fun hfalse => nomatch hvalidated.symm.trans hfalse
        validated := h.greets.validated
        named := fun hsome => nomatch (h.nameless ▸ hsome : (none : Option String).isSome = true)
        skip := fun _ => hskip }
  cases hhalf with
  | @waiting l' stage' count hout hcount hclean' =>
    refine .waiting ⟨hgreets hout fun hskip => hclean' hclean (.inr hskip), h.nameless,
      ⟨hvalidated, hclean' hclean⟩, h.signatures_pos, h.signatures_le, ?_, ?_⟩
    · show 1 ≤ names + count + stage'.due
      omega
    · show names + count + stage'.due ≤ limit
      omega
  | @failed l' fault count hout hcount hskip =>
    exact .failed (hgreets hout fun hnil => hskip hnil (hclean (.inr hnil))) hsignatures (by omega)
      h.nameless
  | @answered l' result hout hqueue =>
    have hempty := hqueue hclean
    have hall := hgreets hout fun _ => hempty
    cases result with
    | error fault => exact .failed hall hsignatures hle h.nameless
    | ok remoteName =>
      have hnamed : Greets name signatures (names + stage.due)
          { f with link := l', localName := some name, remoteName := some remoteName } :=
        { out := hall.out
          order := hall.order
          validated := hall.validated
          named := fun _ => ⟨hvalidated, hpos, hempty⟩
          skip := hall.skip }
      refine .introduced hnamed hsignatures hle ?_
      show (f.validated && true) = true
      rw [hvalidated]
      rfl

/-- Every handshake writes what is due of it, and no more. -/
theorem greeted_shake {stage : HandshakeStage}
    (h : f.Shakes name limit signatures names stage) : Greeted name limit (f.shake name stage) := by
  cases stage with
  | names stage => exact greeted_names h
  | signature stage =>
    obtain ⟨hunvalidated, hclean⟩ := h.reached
    obtain rfl : names = 0 := h.greets.order hunvalidated
    have hle : signatures + stage.due ≤ limit := h.signatures_le
    have hpos : 1 ≤ signatures + stage.due := h.signatures_pos
    have hname : 0 + 1 ≤ limit := h.names_le
    have hhalf := halfShakes_exchangeThen signature (checkSignature signature) stage f.link
    rw [shake, exchangeSignature]
    generalize exchangeThen signature (checkSignature signature) stage f.link = result
      at hhalf ⊢
    have hgreets : ∀ {l' : Link} {count : Nat},
        l'.out = f.link.out ++ copies count signature →
          Greets name (signatures + count) 0 { f with link := l' } := by
      intro l' count hout
      exact
        { out := by rw [hout, h.greets.out, greeting_add_signatures]
          order := fun _ => rfl
          validated := fun htrue => nomatch htrue.symm.trans hunvalidated
          named := fun hsome => nomatch (h.nameless ▸ hsome : (none : Option String).isSome = true)
          skip := fun htrue => nomatch htrue.symm.trans hunvalidated }
    cases hhalf with
    | @waiting l' stage' count hout hcount hclean' =>
      refine .waiting ⟨hgreets hout, h.nameless, ⟨hunvalidated, hclean' hclean⟩, ?_, ?_,
        Nat.le_refl 1, hname⟩
      · show 1 ≤ signatures + count + stage'.due
        omega
      · show signatures + count + stage'.due ≤ limit
        omega
    | @failed l' fault count hout hcount hskip =>
      exact .failed (hgreets hout) (by omega) (Nat.zero_le limit) h.nameless
    | @answered l' result hout hqueue =>
      have hempty := hqueue hclean
      have hall := hgreets hout
      cases result with
      | error fault => exact .failed hall hle (Nat.zero_le limit) h.nameless
      | ok _ =>
        -- With the signature all is written, so that a name may be skipped behind it.
        have hvalidated : Greets name (signatures + stage.due) 0
            { f with link := l', validated := true } :=
          { out := hall.out
            order := fun _ => rfl
            validated := fun _ => hpos
            named := fun hsome =>
              nomatch (h.nameless ▸ hsome : (none : Option String).isSome = true)
            skip := fun _ _ => hempty }
        exact greeted_names ⟨hvalidated, h.nameless, ⟨rfl, fun _ => hempty⟩, hpos, hle,
          Nat.le_refl 1, hname⟩

/-- A flow that knows no name has not had its handshake. -/
theorem isIntroduced_of_nameless (h : f.remoteName = none) : f.isIntroduced = false := by
  rw [isIntroduced, h, Option.isSome_none, Bool.and_false]

/-- A handshake begins where the last attempt left off. -/
theorem greeted_beginHandshake (h : f.Greets name signatures names)
    (hsignatures : signatures ≤ limit) (hnames : names ≤ limit) :
    Greeted name (limit + 1) (f.beginHandshake name) := by
  unfold beginHandshake
  split
  case isTrue hintroduced => exact .introduced h (by omega) (by omega) hintroduced
  case isFalse hstranger =>
    have hnameless : f.remoteName = none := by
      cases hname : f.remoteName with
      | none => rfl
      | some other =>
        have hsome : f.remoteName.isSome = true := by rw [hname]; rfl
        obtain ⟨hvalidated, -, -⟩ := h.named hsome
        exact absurd (by rw [isIntroduced, hvalidated, hsome]; rfl) hstranger
    split
    · exact .failed h (by omega) (by omega) hnameless
    · unfold firstStage
      cases hvalidated : f.validated with
      | true =>
        have hpos := h.validated hvalidated
        refine greeted_shake ⟨h, hnameless, ⟨hvalidated, ?_⟩, hpos, ?_, ?_, ?_⟩
        · rintro (hreceiving | hskip)
          · cases hreceiving
          · exact h.skip hvalidated hskip
        · show signatures + 0 ≤ limit + 1
          omega
        · show 1 ≤ names + 1
          omega
        · show names + 1 ≤ limit + 1
          omega
      | false =>
        refine greeted_shake ⟨h, hnameless, ⟨hvalidated, ?_⟩, ?_, ?_, ?_, ?_⟩
        · rintro (hreceiving | hskip)
          · cases hreceiving
          · exact absurd hskip frameOf_signature_ne_nil
        · show 1 ≤ signatures + 1
          omega
        · show signatures + 1 ≤ limit + 1
          omega
        · show 1 ≤ names + 1
          omega
        · show names + 1 ≤ limit + 1
          omega

theorem sameLife_beginHandshake (name : String) (f : Flow) :
    f.SameLife (f.beginHandshake name).2 := by
  unfold beginHandshake
  split
  · exact ⟨rfl, rfl, rfl, rfl⟩
  · split
    · exact ⟨rfl, rfl, rfl, rfl⟩
    · exact sameLife_shake ..

theorem id_handshake (name : String) (f : Flow) : (f.handshake name).2.id = f.id := by
  have hsame := sameLife_beginHandshake name f
  unfold handshake
  generalize f.beginHandshake name = result at hsame ⊢
  obtain ⟨_ | _, f'⟩ := result <;> exact hsame.id

/-! ## The beginning of a run -/

/-- How far a run gets that is still at its handshake: it waits, it ends, or its flow becomes
active. It ends if it was asked to stop, or if the handshake failed. -/
inductive Enters (name : String) (limit : Nat) (n : Node) (id : FlowId) (cancelled : Bool) :
    RunProgress × Flow × List Request → Prop
  | waits {stage : HandshakeStage} {f : Flow} {signatures names : Nat} (hid : f.id = id)
      (hstate : f.state = .handshaking) (hshakes : f.Shakes name limit signatures names stage) :
      Enters name limit n id cancelled (.waiting (.handshaking stage), f, [])
  | ends {f : Flow} {signatures names : Nat} (hid : f.id = id)
      (hgreets : f.Greets name signatures names) (hsignatures : signatures ≤ limit)
      (hnames : names ≤ limit) (hwhy : cancelled = true ∨ f.remoteName = none)
      (result : FlowResult) :
      Enters name limit n id cancelled ((f.conclude result).1, (f.conclude result).2, [])
  | activates {f : Flow} {signatures names : Nat} (hid : f.id = id)
      (hgreets : f.Greets name signatures names) (hsignatures : signatures ≤ limit)
      (hnames : names ≤ limit) (hintroduced : f.isIntroduced = true) :
      Enters name limit n id cancelled (f.activate n)

variable {n : Node} {cancelled : Bool}

theorem enters_afterHandshake {progress : HandshakeProgress} (hstate : f.state = .handshaking)
    (hgreeted : Greeted name limit (progress, f)) :
    Enters name limit n f.id cancelled (f.afterHandshake progress n) := by
  cases hgreeted with
  | waiting hshakes => exact .waits rfl hstate hshakes
  | failed hgreets hsignatures hnames hnameless =>
    exact .ends rfl hgreets hsignatures hnames (.inr hnameless) _
  | introduced hgreets hsignatures hnames hintroduced =>
    exact .activates rfl hgreets hsignatures hnames hintroduced

/-- A run begins with one more attempt at the handshake at most. -/
theorem enters_start (hgreets : f.Greets name signatures names) (hsignatures : signatures ≤ limit)
    (hnames : names ≤ limit) (hname : n.name = name) (hcreated : f.state = .created) :
    Enters name (limit + 1) n f.id f.cancelled (f.start n) := by
  have hbegun : Greets name signatures names { f with state := .handshaking } := { hgreets with }
  unfold start
  rw [hcreated]
  dsimp only
  split
  case isTrue hcancelled =>
    exact .ends rfl hbegun (Nat.le_succ_of_le hsignatures) (Nat.le_succ_of_le hnames)
      (.inl hcancelled) _
  case isFalse =>
    subst hname
    have hgreeted := greeted_beginHandshake hbegun hsignatures hnames
    have hsame := sameLife_beginHandshake n.name { f with state := .handshaking }
    generalize beginHandshake n.name { f with state := .handshaking } = result at hgreeted hsame ⊢
    obtain ⟨progress, f'⟩ := result
    have hid : f'.id = f.id := hsame.id
    rw [← hid]
    exact enters_afterHandshake hsame.state hgreeted

theorem enters_pollHandshake {stage : HandshakeStage}
    (hshakes : f.Shakes name limit signatures names stage) (hname : n.name = name)
    (hstate : f.state = .handshaking) :
    Enters name limit n f.id f.cancelled (f.pollHandshake stage n) := by
  unfold pollHandshake
  split
  case isTrue hcancelled =>
    exact .ends rfl hshakes.greets hshakes.signatures_le_limit hshakes.names_le_limit
      (.inl hcancelled) _
  case isFalse =>
    subst hname
    have hgreeted := greeted_shake hshakes
    have hsame := sameLife_shake n.name stage f
    generalize f.shake n.name stage = result at hgreeted hsame ⊢
    obtain ⟨progress, f'⟩ := result
    have hid : f'.id = f.id := hsame.id
    rw [← hid]
    exact enters_afterHandshake (hsame.state.trans hstate) hgreeted

end Flow

end Parley.Chat
