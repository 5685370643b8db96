import Parley.Proofs.Text.RoundTrip
import Parley.Proofs.Wire.Payloads

/-!
# Texts on their way

Texts are sent one after the other, and their bytes arrive in chunks that may be cut anywhere:
inside a prefix, and inside a character. The other end receives texts and looks for data as it
likes, and gives up what it waits for whenever it likes. It hears the texts as they were sent,
but for those that fit no frame: they are skipped where they are sent.

- `Link.sendTexts`, `script`: texts that are sent, and their bytes.
- `Mail`: a receiving end, with the bytes on their way to it and the texts it has heard.
- `Reader.Over`: a reader that has nothing left to read.
- `Mail.Follows`: what every step keeps.
- `Mail.heard_run`: the texts are heard in order, and the end is seen behind all of them.
-/

namespace Parley.Wire

open Text.Utf8 (encode decodeLossy)

/-! ## The sending end -/

/-- Whether a text can be sent. -/
abbrev Sendable (text : String) : Prop :=
  Fits (Text.Utf8.encode text)

/-- The bytes of texts that are sent. -/
def script (texts : List String) : Bytes :=
  (texts.map Text.Utf8.encode).flatMap frameBytes

theorem script_cons (text : String) (texts : List String) :
    script (text :: texts) = frameBytes (Text.Utf8.encode text) ++ script texts :=
  List.flatMap_cons

namespace Link

/-- Sends texts, one after the other. -/
def sendTexts (texts : List String) (l : Link) : Link :=
  texts.foldl (fun l text => (l.send (Text.Utf8.encode text)).2) l

/-- What is sent are the frames of all texts that fit one. -/
theorem written_sendTexts (texts : List String) {l : Link}
    (haccepts : l.stream.acceptance = .everything) (hempty : l.writer.queue = []) :
    (l.sendTexts texts).stream.written =
      l.stream.written ++ script (texts.filter (Sendable ·)) := by
  induction texts generalizing l with
  | nil => exact (List.append_nil _).symm
  | cons text texts ih =>
    have hsend := send_of_everything haccepts (Text.Utf8.encode text)
    have hwrites := l.onlyWrites_send (Text.Utf8.encode text)
    have hsends := l.sends_send (Text.Utf8.encode text)
    rw [sendTexts, List.foldl_cons, ← sendTexts]
    generalize l.send (Text.Utf8.encode text) = result at hsend hwrites hsends ⊢
    obtain ⟨sending, l'⟩ := result
    obtain rfl : sending = .finished (.ok ()) := hsend
    obtain ⟨-, hout, hempty'⟩ := sends_of_empty hsends hempty
    rw [out, out, hempty, hempty' rfl, List.append_nil, List.append_nil] at hout
    rw [ih (hwrites.acceptance haccepts) (hempty' rfl), hout, List.append_assoc]
    by_cases hfits : Sendable text
    case pos =>
      rw [List.filter_cons, if_pos (decide_eq_true hfits), script_cons, frameOf_of_fits hfits]
    case neg =>
      rw [List.filter_cons, if_neg (by simpa using hfits), frameOf_of_not_fits hfits,
        List.nil_append]

end Link

/-- A text is read back from its frame. -/
theorem text_frame_encode (text : String) :
    (Reception.frame (Text.Utf8.encode text)).text = text :=
  Text.Utf8.decodeLossy_encode text

/-! ## Readers at the end -/

/-- Without bytes there are no arrivals. -/
theorem Arrival.eq_nil_of_contents {arrivals : List Arrival} (hplain : ∀ a ∈ arrivals, a.IsPlain)
    (h : contents arrivals = []) : arrivals = [] := by
  cases arrivals with
  | nil => rfl
  | cons arrival arrivals =>
    rw [contents_cons] at h
    have hhead := hplain arrival (List.mem_cons_self ..)
    cases arrival with
    | bytes chunk => exact absurd (List.append_eq_nil_iff.1 h).1 hhead
    | failure fault => exact hhead.elim

theorem Decoder.eq_empty_of_content {d : Decoder} (h : d.content = []) : d = .empty := by
  rcases d with ⟨_ | length, buffer⟩
  · obtain rfl : buffer = [] := h
    rfl
  · cases h

namespace Reader

/-- A reader that has nothing left to read. It may have said so. -/
structure Over (r : Reader) : Prop where
  decoder : r.decoder = .empty
  front : r.front = []
  notFailed : r.failed = false
  said : r.ended = true → r.readable = false

variable {r : Reader}

theorem Tidy.over {arrivals : List Arrival} (h : r.Tidy arrivals []) : r.Over ∧ arrivals = [] := by
  obtain ⟨hboth, hcontents⟩ := List.append_eq_nil_iff.1 h.unread_eq
  obtain ⟨hcontent, hfront⟩ := List.append_eq_nil_iff.1 hboth
  exact ⟨⟨Decoder.eq_empty_of_content hcontent, hfront, h.notFailed,
    fun hended => nomatch hended.symm.trans h.notEnded⟩,
    Arrival.eq_nil_of_contents h.plain hcontents⟩

/-- At the end of the stream there is nothing to receive, time and again. -/
theorem Over.receive (h : r.Over) {s : Stream} (harrivals : s.arrivals = [])
    (hended : s.ended = true) :
    ∃ r', r'.Over ∧ r.receive s = (.done .nothing, r', s) := by
  obtain ⟨front, decoder, ended, readable, failed⟩ := r
  obtain rfl : decoder = .empty := h.decoder
  obtain rfl : front = [] := h.front
  obtain rfl : failed = false := h.notFailed
  obtain ⟨arrivals, ended', acceptance, written, shut⟩ := s
  obtain rfl : arrivals = [] := harrivals
  obtain rfl : ended' = true := hended
  have hover : ∀ ended : Bool, (⟨[], .empty, ended, false, false⟩ : Reader).Over :=
    fun _ => ⟨rfl, rfl, rfl, fun _ => rfl⟩
  cases ended with
  | true =>
    obtain rfl : readable = false := h.said rfl
    exact ⟨_, hover true, rfl⟩
  | false => cases readable <;> exact ⟨_, hover true, rfl⟩

theorem Over.awaitData (h : r.Over) {s : Stream} (harrivals : s.arrivals = [])
    (hended : s.ended = true) : r.awaitData s = (.done (.ok false), r, s) := by
  obtain ⟨front, decoder, ended, readable, failed⟩ := r
  obtain rfl : decoder = .empty := h.decoder
  obtain rfl : front = [] := h.front
  obtain ⟨arrivals, ended', acceptance, written, shut⟩ := s
  obtain rfl : arrivals = [] := harrivals
  obtain rfl : ended' = true := hended
  rfl

end Reader

namespace Link

/-- A link at the end of its stream, with nothing left to read. -/
structure Over (l : Link) : Prop where
  reader : l.reader.Over
  arrivals : l.stream.arrivals = []
  ended : l.stream.ended = true

variable {l : Link}

theorem Tidy.over (h : l.Tidy []) (hended : l.stream.ended = true) : l.Over :=
  ⟨(Reader.Tidy.over h).1, (Reader.Tidy.over h).2, hended⟩

theorem Over.receive (h : l.Over) : l.receive.1 = .done .nothing ∧ l.receive.2.Over := by
  obtain ⟨r, hover, hreceive⟩ := h.reader.receive h.arrivals h.ended
  unfold Link.receive
  rw [hreceive]
  exact ⟨rfl, hover, h.arrivals, h.ended⟩

theorem Over.available (h : l.Over) : l.available = 0 := by
  rw [Link.available, Stream.arrived, h.arrivals, h.reader.front, h.reader.decoder]
  rfl

theorem Over.awaitData (h : l.Over) : l.awaitData = (.done (.ok false), l) := by
  unfold Link.awaitData
  rw [h.reader.awaitData h.arrivals h.ended]

end Link

/-! ## The receiving end -/

/-- A receiving end. -/
structure Mail where
  link : Link
  /-- The bytes that were sent and have not arrived. -/
  transit : Bytes
  /-- The texts that were received. -/
  heard : List String

namespace Mail

/-- Something that happens at the receiving end. -/
inductive Act where
  /-- The next bytes arrive as one chunk. -/
  | arrive (count : Nat)
  /-- The stream ends, if everything has arrived. -/
  | finish
  /-- One attempt to receive a text. -/
  | receive
  /-- One attempt to see whether there is anything to read. -/
  | probe

/-- Texts were sent, and nothing has arrived. -/
def ofTexts (texts : List String) : Mail where
  link := .ofStream .idle
  transit := ((Link.ofStream .idle).sendTexts texts).stream.written
  heard := []

/-- One attempt to receive a text. One that has to wait is given up. -/
def receive (m : Mail) : Mail :=
  match m.link.receive with
  | (.waiting, link) => { m with link }
  | (.done reception, link) => { m with link, heard := m.heard ++ [reception.text] }

def act (m : Mail) : Act → Mail
  | .arrive count =>
    { m with
      link := m.link.happen (.arrive (m.transit.take count))
      transit := m.transit.drop count }
  | .finish => if m.transit = [] then { m with link := m.link.happen .finish } else m
  | .receive => m.receive
  | .probe => { m with link := m.link.awaitData.2 }

def run (m : Mail) (acts : List Act) : Mail :=
  acts.foldl act m

/-- A receiving end that has heard the first of the texts and reads the others, or that has heard
all of them and finds no more. -/
inductive Follows (sent : List String) (m : Mail) : Prop
  | reading {rest : List String} {unread : Bytes} (hsent : sent = m.heard ++ rest)
      (hbytes : unread ++ m.transit = script rest) (htidy : m.link.Tidy unread)
      (hended : m.link.stream.ended = true → m.transit = [] ∧ rest ≠ [])
  | drained {extra : Nat} (hheard : m.heard = sent ++ List.replicate extra "")
      (htransit : m.transit = []) (hover : m.link.Over)

/-! ## Steps -/

/-- As long as there is a text to hear, not all were heard. -/
theorem not_prefix_of_rest {sent heard rest : List String} (h : sent = heard ++ rest)
    (hrest : rest ≠ []) : ¬sent <+: heard := by
  intro hprefix
  have hlength := hprefix.length_le
  rw [h, List.length_append] at hlength
  exact hrest (List.length_eq_zero_iff.1 (by omega))

section Steps

variable {sent rest : List String} {m : Mail} {unread : Bytes} {text : String}

/-- At the end of the stream a reader that has read all texts is done. -/
theorem follows_of_tidy (hsent : sent = m.heard ++ rest)
    (hbytes : unread ++ m.transit = script rest) (htidy : m.link.Tidy unread)
    (hended : m.link.stream.ended = true → m.transit = []) : m.Follows sent := by
  cases rest with
  | cons text rest => exact .reading hsent hbytes htidy fun h => ⟨hended h, nofun⟩
  | nil =>
    cases hstop : m.link.stream.ended with
    | false => exact .reading hsent hbytes htidy fun h => nomatch hstop.symm.trans h
    | true =>
      obtain ⟨rfl, htransit⟩ := List.append_eq_nil_iff.1 hbytes
      have hheard : m.heard = sent ++ List.replicate 0 "" := by
        rw [hsent, List.append_nil]
        exact (List.append_nil _).symm
      exact .drained hheard htransit (htidy.over hstop)

theorem follows_ofTexts (texts : List String) :
    (ofTexts texts).Follows (texts.filter (Sendable ·)) := by
  have hwritten := Link.written_sendTexts texts (l := .ofStream .idle) rfl rfl
  have hbytes : [] ++ (ofTexts texts).transit = script (texts.filter (Sendable ·)) := hwritten
  exact follows_of_tidy rfl hbytes Reader.tidy_fresh fun h => nomatch h

theorem Follows.arrive (h : m.Follows sent) (count : Nat) :
    (m.act (.arrive count)).Follows sent := by
  cases h with
  | @reading rest unread hsent hbytes htidy hended =>
    refine .reading hsent ?_ (htidy.arrive _) fun h => ⟨?_, (hended h).2⟩
    · show unread ++ m.transit.take count ++ m.transit.drop count = _
      rw [List.append_assoc, List.take_append_drop, hbytes]
    · show m.transit.drop count = []
      rw [(hended h).1, List.drop_nil]
  | drained hheard htransit hover =>
    refine .drained hheard ?_ ⟨hover.reader, ?_, hover.ended⟩
    · show m.transit.drop count = []
      rw [htransit, List.drop_nil]
    · show m.link.stream.arrivals ++ (Stream.pieces (m.transit.take count)).map .bytes = []
      rw [hover.arrivals, htransit, List.take_nil]
      rfl

theorem Follows.finish (h : m.Follows sent) : (m.act .finish).Follows sent := by
  have hact : m.act .finish =
      if m.transit = [] then { m with link := m.link.happen .finish } else m := rfl
  rw [hact]
  split
  case isFalse => exact h
  case isTrue htransit =>
    cases h with
    | reading hsent hbytes htidy _ => exact follows_of_tidy hsent hbytes htidy fun _ => htransit
    | drained hheard _ hover => exact .drained hheard htransit ⟨hover.reader, hover.arrivals, rfl⟩

/-- A text is received as soon as its frame has arrived: at most those behind it are still on
their way. -/
theorem receive_cons (hbytes : unread ++ m.transit = script (text :: rest)) (hne : text ≠ "")
    (hfits : Sendable text) (htidy : m.link.Tidy unread)
    (hended : m.link.stream.ended = true → m.transit = []) :
    (script rest).length < m.transit.length ∧ m.link.receive.1 = .waiting ∧
        m.link.receive.2.Tidy unread ∨
      m.transit.length ≤ (script rest).length ∧
        m.link.receive.1 = .done (.frame (Text.Utf8.encode text)) ∧
        ∃ left, m.link.receive.2.Tidy left ∧ left ++ m.transit = script rest := by
  have hreads := Link.reads_receive htidy
  have hlength := congrArg List.length hbytes
  rw [script_cons, List.length_append, List.length_append] at hlength
  rw [script_cons] at hbytes
  generalize m.link.receive = received at hreads ⊢
  obtain ⟨attempt, l⟩ := received
  obtain ⟨hcut, hshort⟩ | ⟨left, hcut, hleft⟩ :=
    cutFrame_of_append (Text.Utf8.encode_ne_nil hne) hfits hbytes
  · refine .inl ⟨by omega, ?_⟩
    cases hreads with
    | frame hcut' => cases hcut.symm.trans hcut'
    | stop _ hstop =>
      rw [hended (hstop hcut), List.length_nil] at hlength
      omega
    | wait _ _ htidy' => exact ⟨rfl, htidy'⟩
  · have hbehind := congrArg List.length hleft
    rw [List.length_append] at hbehind
    refine .inr ⟨by omega, ?_⟩
    cases hreads with
    | frame hcut' htidy' =>
      cases hcut.symm.trans hcut'
      exact ⟨rfl, left, htidy', hleft⟩
    | stop hcut' => exact absurd hcut (hcut' _ _)
    | wait hcut' => cases hcut'.symm.trans hcut

theorem receive_nil (htidy : m.link.Tidy []) (hended : m.link.stream.ended = false) :
    m.link.receive.1 = .waiting ∧ m.link.receive.2.Tidy [] := by
  have hreads := Link.reads_receive htidy
  rw [hended] at hreads
  generalize m.link.receive = received at hreads ⊢
  obtain ⟨attempt, l⟩ := received
  cases hreads with
  | frame hcut => cases hcut
  | stop _ hstop => cases hstop rfl
  | wait _ _ htidy' => exact ⟨rfl, htidy'⟩

/-- What a reception adds to the texts that were heard is the next text. -/
theorem Follows.receive (h : m.Follows sent) (hsent : ∀ text ∈ sent, text ≠ "" ∧ Sendable text) :
    m.receive.Follows sent := by
  have hreads := m.link.onlyReads_receive
  unfold Mail.receive
  cases h with
  | @reading rest unread hheard hbytes htidy hended =>
    cases rest with
    | nil =>
      obtain ⟨rfl, htransit⟩ := List.append_eq_nil_iff.1 hbytes
      have hopen : m.link.stream.ended = false :=
        Bool.eq_false_iff.2 fun h => (hended h).2 rfl
      obtain ⟨hwaiting, htidy'⟩ := receive_nil htidy hopen
      generalize m.link.receive = received at hreads hwaiting htidy' ⊢
      obtain ⟨attempt, l⟩ := received
      obtain rfl : attempt = .waiting := hwaiting
      exact .reading hheard hbytes htidy' fun h => hended (hreads.ended.symm.trans h)
    | cons text rest =>
      obtain ⟨hne, hfits⟩ := hsent text (by rw [hheard]; simp)
      have hnext := receive_cons hbytes hne hfits htidy fun h => (hended h).1
      generalize m.link.receive = received at hreads hnext ⊢
      obtain ⟨attempt, l⟩ := received
      obtain ⟨-, hattempt, htidy'⟩ | ⟨-, hattempt, left, htidy', hleft⟩ := hnext
      · obtain rfl : attempt = .waiting := hattempt
        exact .reading hheard hbytes htidy' fun h => hended (hreads.ended.symm.trans h)
      · obtain rfl : attempt = .done (.frame (Text.Utf8.encode text)) := hattempt
        refine follows_of_tidy ?_ hleft htidy' fun h => (hended (hreads.ended.symm.trans h)).1
        show sent = m.heard ++ [(Reception.frame (Text.Utf8.encode text)).text] ++ rest
        rw [text_frame_encode, List.append_assoc, hheard]
        rfl
  | @drained extra hheard htransit hover =>
    obtain ⟨hnothing, hover'⟩ := hover.receive
    generalize m.link.receive = received at hnothing hover' ⊢
    obtain ⟨attempt, l⟩ := received
    obtain rfl : attempt = .done .nothing := hnothing
    have hheard' : m.heard ++ [""] = sent ++ List.replicate (extra + 1) "" := by
      rw [hheard, List.replicate_succ', List.append_assoc]
    exact .drained hheard' htransit hover'

/-- Looking for data takes nothing, and finds the end behind all texts. -/
theorem Follows.probe (h : m.Follows sent) (hsent : ∀ text ∈ sent, text ≠ "" ∧ Sendable text) :
    (m.act .probe).Follows sent ∧
      (m.link.awaitData.1 = .done (.ok false) ↔
        m.link.stream.ended = true ∧ sent <+: m.heard) ∧
      ∀ fault, m.link.awaitData.1 ≠ .done (.error fault) := by
  cases h with
  | drained hheard htransit hover =>
    have hact : m.act .probe = m := by rw [act, hover.awaitData]
    rw [hact, hover.awaitData]
    exact ⟨.drained hheard htransit hover, ⟨fun _ => ⟨hover.ended, _, hheard.symm⟩, fun _ => rfl⟩,
      nofun⟩
  | @reading rest unread hheard hbytes htidy hended =>
    have hprobes := Link.probes_awaitData htidy
    have hreads := m.link.onlyReads_awaitData
    unfold act
    generalize m.link.awaitData = probed at hprobes hreads ⊢
    obtain ⟨attempt, l⟩ := probed
    have hkeeps : l.Tidy unread → ({ m with link := l } : Mail).Follows sent := fun htidy' =>
      .reading hheard hbytes htidy' fun h => hended (hreads.ended.symm.trans h)
    have hmore : ¬(m.link.stream.ended = true ∧ sent <+: m.heard) :=
      fun ⟨hstop, hprefix⟩ => not_prefix_of_rest hheard (hended hstop).2 hprefix
    cases hprobes with
    | data htidy' =>
      exact ⟨hkeeps htidy', ⟨nofun, fun h => absurd h hmore⟩, nofun⟩
    | wait _ _ htidy' =>
      exact ⟨hkeeps htidy', ⟨nofun, fun h => absurd h hmore⟩, nofun⟩
    | stop hcut hstop =>
      -- At the end of the stream the frame of the next text is there.
      obtain ⟨htransit, hrest⟩ := hended hstop
      obtain ⟨text, rest, rfl⟩ := List.exists_cons_of_ne_nil hrest
      obtain ⟨hne, hfits⟩ := hsent text (by rw [hheard]; simp)
      rw [htransit, List.append_nil, script_cons] at hbytes
      rw [hbytes, cutFrame_frameBytes (Text.Utf8.encode_ne_nil hne) hfits] at hcut
      cases hcut

end Steps

/-! ## Runs -/

theorem follows_run {sent : List String} (hsent : ∀ text ∈ sent, text ≠ "" ∧ Sendable text)
    (acts : List Act) {m : Mail} (h : m.Follows sent) : (m.run acts).Follows sent := by
  induction acts generalizing m with
  | nil => exact h
  | cons a acts ih =>
    cases a with
    | arrive count => exact ih (h.arrive count)
    | finish => exact ih h.finish
    | receive => exact ih (h.receive hsent)
    | probe => exact ih (h.probe hsent).1

/-- However the bytes of texts are cut into chunks, and however receptions and looks for data come
in between and are given up, the texts that fit a frame are heard as they were sent. An attempt
to receive has to wait for exactly as long as something of the next frame is on its way. The end
is seen once the stream has ended and all those texts were heard; from then on a reception comes
to an empty text. -/
theorem heard_run {texts : List String} (hne : ∀ text ∈ texts, text ≠ "") (acts : List Act) :
    (((ofTexts texts).run acts).heard <+: texts.filter (Sendable ·) ∨
        ((ofTexts texts).run acts).link.stream.ended = true ∧
          ∃ extra, ((ofTexts texts).run acts).heard =
            texts.filter (Sendable ·) ++ List.replicate extra "") ∧
      (∀ text rest, texts.filter (Sendable ·) = ((ofTexts texts).run acts).heard ++ text :: rest →
        if (script rest).length < ((ofTexts texts).run acts).transit.length then
          ((ofTexts texts).run acts).link.receive.1 = .waiting
        else
          ∃ reception, ((ofTexts texts).run acts).link.receive.1 = .done reception ∧
            reception.text = text) ∧
      (((ofTexts texts).run acts).link.awaitData.1 = .done (.ok false) ↔
        ((ofTexts texts).run acts).link.stream.ended = true ∧
          texts.filter (Sendable ·) <+: ((ofTexts texts).run acts).heard) ∧
      (((ofTexts texts).run acts).link.awaitData.1 = .done (.ok false) →
        ((ofTexts texts).run acts).transit = [] ∧
          ((ofTexts texts).run acts).link.available = 0) := by
  have hsent : ∀ text ∈ texts.filter (Sendable ·), text ≠ "" ∧ Sendable text := by
    intro text htext
    obtain ⟨hmem, hfits⟩ := List.mem_filter.1 htext
    exact ⟨hne text hmem, of_decide_eq_true hfits⟩
  have h := follows_run hsent acts (follows_ofTexts texts)
  obtain ⟨-, hend, -⟩ := h.probe hsent
  generalize (ofTexts texts).run acts = m at h hend ⊢
  generalize texts.filter (Sendable ·) = sent at hsent h hend ⊢
  refine ⟨?_, ?_, hend, fun hfalse => ?_⟩
  · cases h with
    | reading hheard => exact .inl ⟨_, hheard.symm⟩
    | drained hheard _ hover => exact .inr ⟨hover.ended, _, hheard⟩
  · intro text rest hnext
    cases h with
    | drained hheard => exact absurd ⟨_, hheard.symm⟩ (not_prefix_of_rest hnext nofun)
    | reading hheard hbytes htidy hended =>
      obtain rfl := List.append_cancel_left (hheard.symm.trans hnext)
      obtain ⟨hne, hfits⟩ := hsent text (by rw [hheard]; simp)
      obtain ⟨hshort, hwaiting, -⟩ | ⟨hlong, hdone, -⟩ :=
        receive_cons hbytes hne hfits htidy fun h => (hended h).1
      · rw [if_pos hshort]
        exact hwaiting
      · rw [if_neg (Nat.not_lt.2 hlong)]
        exact ⟨_, hdone, text_frame_encode text⟩
  · obtain ⟨hstop, hprefix⟩ := hend.1 hfalse
    cases h with
    | reading hheard _ _ hended =>
      exact absurd hprefix (not_prefix_of_rest hheard (hended hstop).2)
    | drained _ htransit hover => exact ⟨htransit, hover.available⟩

/-- Two texts, cut inside a prefix and inside a character; what has to wait is given up. -/
theorem heard_run_cut :
    ((ofTexts ["ä", "bc"]).run
        [.probe, .arrive 2, .receive, .arrive 3, .probe, .receive, .arrive 9, .receive, .receive,
          .finish]).heard = ["ä", "bc"] ∧
      ((ofTexts ["ä", "bc"]).run
        [.probe, .arrive 2, .receive, .arrive 3, .probe, .receive, .arrive 9, .receive, .receive,
          .finish]).link.awaitData.1 = .done (.ok false) := by
  obtain ⟨-, -, hend, -⟩ := heard_run (show ∀ text ∈ ["ä", "bc"], text ≠ "" by decide)
    [.probe, .arrive 2, .receive, .arrive 3, .probe, .receive, .arrive 9, .receive, .receive,
      .finish]
  have hheard : ((ofTexts ["ä", "bc"]).run
      [.probe, .arrive 2, .receive, .arrive 3, .probe, .receive, .arrive 9, .receive, .receive,
        .finish]).heard = ["ä", "bc"] := by decide
  exact ⟨hheard, hend.2 ⟨rfl, hheard ▸ ⟨[], by decide⟩⟩⟩

/-- A text that fits no frame is skipped without a word, and nobody hears it. At the end of the
stream a reception comes to an empty text, behind texts that were heard as well. -/
theorem not_heard_longText :
    longText ≠ "" ∧
      ((ofTexts [longText]).run [.finish, .receive]).heard = [""] ∧
      ((ofTexts [longText]).run [.finish, .receive]).link.awaitData.1 = .done (.ok false) ∧
      ((ofTexts ["a"]).run [.arrive 5, .receive, .finish, .receive]).heard = ["a", ""] := by
  have hnone : [longText].filter (Sendable ·) = [] := by
    refine List.filter_eq_nil_iff.2 fun text htext => ?_
    obtain rfl := List.mem_singleton.1 htext
    rw [decide_eq_true_iff]
    exact not_fits_longText
  have hwritten := Link.written_sendTexts [longText] (l := .ofStream .idle) rfl rfl
  rw [hnone] at hwritten
  have hmail : ofTexts [longText] = ofTexts [] := by
    rw [ofTexts, hwritten]
    rfl
  rw [hmail]
  exact ⟨longText_ne_empty, by decide, rfl, by decide⟩

end Mail

end Parley.Wire
