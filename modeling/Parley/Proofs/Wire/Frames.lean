import Parley.Wire.Frame

/-!
# Frames of a whole text of bytes

A decoder gets its bytes in pieces and may be asked for a frame at any time. What it
yields, taken together, depends on nothing but the bytes: it is what a reader yields
that has all of them before it and cuts one frame after the other from the front.

- `cutFrame`: what stands at the front of the bytes, if all of it is there.
- `frames`, `remainder`: cuts as often as that goes, and what is left then.
- `ending`: what the end of the stream makes of that which is left.
- `Decoder.content`: the bytes of which a decoder has not made anything yet.
- `Decoder.Move`, `Decoder.run`, `Decoder.drain`: uses of a decoder.
- `Decoder.frames_of_run`: a run takes frames from the front of the content, by
  induction on the moves.
- `decode_pieces`: pieces do not matter, and encoded payloads are read back.
-/

namespace Parley.Wire

/-- What is read from a stream: payloads, and faults in between. -/
abbrev FrameEvent := Except FrameFault Bytes

/-! ## Prefixes -/

theorem bytes_of_lt {n : Nat} (h : n < 0x80000000) :
    (UInt8.ofNat n).toNat + 0x100 * (UInt8.ofNat (n / 0x100)).toNat +
      0x10000 * (UInt8.ofNat (n / 0x10000)).toNat +
        0x1000000 * (UInt8.ofNat (n / 0x1000000)).toNat = n := by
  simp only [UInt8.toNat_ofNat']
  omega

theorem bmod_of_lt {n : Nat} (h : n < 0x80000000) : Int.bmod n 0x100000000 = n :=
  Int.bmod_eq_of_le (by omega) (by omega)

/-- A length that fits is read back from its prefix. -/
theorem prefixValue_of_lt {n : Nat} (h : n < 0x80000000) :
    prefixValue (UInt8.ofNat n) (UInt8.ofNat (n / 0x100)) (UInt8.ofNat (n / 0x10000))
      (UInt8.ofNat (n / 0x1000000)) = n :=
  (congrArg (fun k : Nat => Int.bmod k 0x100000000) (bytes_of_lt h)).trans (bmod_of_lt h)

theorem toNat_bmod_of_pos {n : Nat} (hn : n < 0x100000000) (h : 0 < Int.bmod n 0x100000000) :
    (Int.bmod n 0x100000000).toNat = n := by
  rw [Int.bmod_def] at h ⊢
  split at h
  case isTrue hsmall =>
    rw [if_pos hsmall]
    omega
  case isFalse => omega

theorem ofNat_of_mod {b : UInt8} {n : Nat} (h : n % 256 = b.toNat) : UInt8.ofNat n = b := by
  rw [← UInt8.toNat_inj, UInt8.toNat_ofNat']
  exact h

/-- A positive length has but one prefix. -/
theorem prefixBytes_of_pos {a b c d : UInt8} (h : 0 < prefixValue a b c d) :
    prefixBytes (prefixValue a b c d).toNat = [a, b, c, d] := by
  have ha := a.toNat_lt
  have hb := b.toNat_lt
  have hc := c.toNat_lt
  have hd := d.toNat_lt
  have hvalue : (prefixValue a b c d).toNat =
      a.toNat + 0x100 * b.toNat + 0x10000 * c.toNat + 0x1000000 * d.toNat :=
    toNat_bmod_of_pos (by omega) h
  rw [hvalue, prefixBytes, ofNat_of_mod (b := a) (by omega), ofNat_of_mod (b := b) (by omega),
    ofNat_of_mod (b := c) (by omega), ofNat_of_mod (b := d) (by omega)]

theorem prefixValue_lt (a b c d : UInt8) : prefixValue a b c d < 0x80000000 := by
  unfold prefixValue
  generalize a.toNat + 0x100 * b.toNat + 0x10000 * c.toNat + 0x1000000 * d.toNat = n
  have hlt := @Int.bmod_lt n 0x100000000 (by omega)
  omega

/-! ## Cutting -/

/-- Cuts a payload of the length announced, if all of it is there. -/
def cutPayload (announced : Int) (rest : Bytes) : Option (FrameEvent × Bytes) :=
  if announced < 0 then some (.error (.negativeLength announced), rest)
  else if announced = 0 then some (.error .emptyFrame, rest)
  else if rest.length < announced.toNat then none
  else some (.ok (rest.take announced.toNat), rest.drop announced.toNat)

/-- Cuts what stands at the front: a payload with its prefix, or a prefix alone that
announces none. There is nothing to cut while that is not complete. -/
def cutFrame : Bytes → Option (FrameEvent × Bytes)
  | b₀ :: b₁ :: b₂ :: b₃ :: rest => cutPayload (prefixValue b₀ b₁ b₂ b₃) rest
  | _ => none

section Cutting

variable {announced : Int} {bytes rest left : Bytes} {event : FrameEvent}

/-- The three ways of a cut. -/
theorem cutPayload_eq_some (h : cutPayload announced rest = some (event, left)) :
    (announced < 0 ∧ event = .error (.negativeLength announced) ∧ left = rest) ∨
      (announced = 0 ∧ event = .error .emptyFrame ∧ left = rest) ∨
      (0 < announced ∧ announced.toNat ≤ rest.length ∧ event = .ok (rest.take announced.toNat) ∧
        left = rest.drop announced.toNat) := by
  unfold cutPayload at h
  split at h
  case isTrue hneg =>
    cases h
    exact .inl ⟨hneg, rfl, rfl⟩
  case isFalse hneg =>
    split at h
    case isTrue hzero =>
      cases h
      exact .inr (.inl ⟨hzero, rfl, rfl⟩)
    case isFalse hzero =>
      split at h
      case isTrue => cases h
      case isFalse hlen =>
        cases h
        exact .inr (.inr ⟨by omega, Nat.le_of_not_lt hlen, rfl, rfl⟩)

theorem cutPayload_eq_none (h : cutPayload announced rest = none) :
    0 < announced ∧ rest.length < announced.toNat := by
  unfold cutPayload at h
  split at h
  case isTrue => cases h
  case isFalse hneg =>
    split at h
    case isTrue => cases h
    case isFalse hzero =>
      split at h
      case isTrue hlen => exact ⟨by omega, hlen⟩
      case isFalse => cases h

theorem cutPayload_of_pos (hpos : 0 < announced) :
    cutPayload announced rest =
      if rest.length < announced.toNat then none
      else some (.ok (rest.take announced.toNat), rest.drop announced.toNat) := by
  rw [cutPayload, if_neg (by omega), if_neg (by omega)]

theorem exists_prefix (h : prefixLength ≤ bytes.length) :
    ∃ b₀ b₁ b₂ b₃ rest announced, bytes = b₀ :: b₁ :: b₂ :: b₃ :: rest ∧
      prefixValue b₀ b₁ b₂ b₃ = announced := by
  match bytes, h with
  | b₀ :: b₁ :: b₂ :: b₃ :: rest, _ => exact ⟨b₀, b₁, b₂, b₃, rest, _, rfl, rfl⟩

/-- Whatever is cut begins with a prefix. -/
theorem exists_prefix_of_cutFrame (h : cutFrame bytes = some (event, left)) :
    ∃ b₀ b₁ b₂ b₃ rest announced, bytes = b₀ :: b₁ :: b₂ :: b₃ :: rest ∧
      prefixValue b₀ b₁ b₂ b₃ = announced ∧ cutPayload announced rest = some (event, left) := by
  unfold cutFrame at h
  split at h
  · exact ⟨_, _, _, _, _, _, rfl, rfl, h⟩
  · cases h

/-- Where nothing can be cut, the prefix or the payload is incomplete. -/
theorem cutFrame_eq_none (h : cutFrame bytes = none) :
    bytes.length < prefixLength ∨
      ∃ b₀ b₁ b₂ b₃ rest announced, bytes = b₀ :: b₁ :: b₂ :: b₃ :: rest ∧
        prefixValue b₀ b₁ b₂ b₃ = announced ∧ 0 < announced ∧ rest.length < announced.toNat := by
  unfold cutFrame at h
  split at h
  case h_1 => exact .inr ⟨_, _, _, _, _, _, rfl, rfl, cutPayload_eq_none h⟩
  case h_2 hshort =>
    match bytes, hshort with
    | [], _ | [_], _ | [_, _], _ | [_, _, _], _ => exact .inl (by simp [prefixLength])
    | b₀ :: b₁ :: b₂ :: b₃ :: rest, hshort => exact absurd rfl (hshort b₀ b₁ b₂ b₃ rest)

theorem length_lt_of_cutFrame (h : cutFrame bytes = some (event, left)) :
    left.length < bytes.length := by
  obtain ⟨b₀, b₁, b₂, b₃, rest, announced, rfl, -, hcut⟩ := exists_prefix_of_cutFrame h
  simp only [List.length_cons]
  obtain ⟨-, -, rfl⟩ | ⟨-, -, rfl⟩ | ⟨-, -, -, rfl⟩ := cutPayload_eq_some hcut
  · omega
  · omega
  · rw [List.length_drop]
    omega

/-- A frame is its prefix and its payload. -/
theorem length_of_cutFrame {payload : Bytes} (h : cutFrame bytes = some (.ok payload, left)) :
    bytes.length = prefixLength + payload.length + left.length := by
  obtain ⟨b₀, b₁, b₂, b₃, rest, announced, rfl, -, hcut⟩ := exists_prefix_of_cutFrame h
  obtain ⟨-, hevent, -⟩ | ⟨-, hevent, -⟩ | ⟨-, hlen, hevent, hleft⟩ := cutPayload_eq_some hcut
  · cases hevent
  · cases hevent
  · cases hevent
    subst hleft
    simp only [List.length_cons, List.length_take, List.length_drop, prefixLength]
    omega

/-- A payload is never empty. -/
theorem payload_ne_nil_of_cutFrame {payload : Bytes}
    (h : cutFrame bytes = some (.ok payload, left)) : payload ≠ [] := by
  obtain ⟨b₀, b₁, b₂, b₃, rest, announced, rfl, -, hcut⟩ := exists_prefix_of_cutFrame h
  obtain ⟨-, hevent, -⟩ | ⟨-, hevent, -⟩ | ⟨hpos, hlen, hevent, -⟩ := cutPayload_eq_some hcut
  · cases hevent
  · cases hevent
  · cases hevent
    refine List.ne_nil_of_length_pos ?_
    rw [List.length_take]
    omega

theorem cutFrame_announced {b₀ b₁ b₂ b₃ : UInt8} (h : prefixValue b₀ b₁ b₂ b₃ = announced) :
    cutFrame (b₀ :: b₁ :: b₂ :: b₃ :: rest) = cutPayload announced rest := by
  rw [← h]
  rfl

/-- What comes later does not change what is cut. -/
theorem cutFrame_append (h : cutFrame bytes = some (event, left)) (more : Bytes) :
    cutFrame (bytes ++ more) = some (event, left ++ more) := by
  obtain ⟨b₀, b₁, b₂, b₃, rest, announced, rfl, hannounced, hcut⟩ := exists_prefix_of_cutFrame h
  simp only [List.cons_append]
  rw [cutFrame_announced hannounced]
  obtain ⟨hneg, rfl, rfl⟩ | ⟨hzero, rfl, rfl⟩ | ⟨hpos, hlen, rfl, rfl⟩ := cutPayload_eq_some hcut
  · exact if_pos hneg
  · rw [hzero]
    rfl
  · rw [cutPayload_of_pos hpos, if_neg (by rw [List.length_append]; omega),
      List.take_append_of_le_length hlen, List.drop_append_of_le_length hlen]

end Cutting

/-- All that can be cut from the front, in order, and what is left. -/
def readAll (bytes : Bytes) : List FrameEvent × Bytes :=
  match h : cutFrame bytes with
  | some (event, rest) =>
    have := length_lt_of_cutFrame h
    let (events, left) := readAll rest
    (event :: events, left)
  | none => ([], bytes)
termination_by bytes.length

/-- The payloads and faults in a text of bytes. -/
def frames (bytes : Bytes) : List FrameEvent :=
  (readAll bytes).1

/-- The incomplete frame at the end. -/
def remainder (bytes : Bytes) : Bytes :=
  (readAll bytes).2

/-- What the end of the stream behind an incomplete frame comes to: it is a fault
unless nothing of the frame is there. -/
def ending : Bytes → Except FrameFault (Option Bytes)
  | [] => .ok none
  | b₀ :: b₁ :: b₂ :: b₃ :: rest =>
    .error (.truncated (prefixValue b₀ b₁ b₂ b₃).toNat rest.length)
  | bytes => .error (.truncated prefixLength bytes.length)

theorem ending_announced {b₀ b₁ b₂ b₃ : UInt8} {length : Nat}
    (h : prefixValue b₀ b₁ b₂ b₃ = length) (rest : Bytes) :
    ending (b₀ :: b₁ :: b₂ :: b₃ :: rest) = .error (.truncated length rest.length) := by
  rw [ending, h]
  rfl

section Reading

variable {bytes rest : Bytes} {event : FrameEvent}

theorem readAll_of_cut (h : cutFrame bytes = some (event, rest)) :
    readAll bytes = (event :: frames rest, remainder rest) := by
  rw [readAll]
  split
  case h_1 event' rest' h' =>
    obtain ⟨rfl, rfl⟩ := Prod.mk.inj (Option.some.inj (h.symm.trans h'))
    rfl
  case h_2 h' => cases h.symm.trans h'

theorem readAll_of_short (h : cutFrame bytes = none) : readAll bytes = ([], bytes) := by
  rw [readAll]
  split
  case h_1 h' => cases h.symm.trans h'
  case h_2 => rfl

theorem frames_of_cut (h : cutFrame bytes = some (event, rest)) :
    frames bytes = event :: frames rest :=
  congrArg Prod.fst (readAll_of_cut h)

theorem remainder_of_cut (h : cutFrame bytes = some (event, rest)) :
    remainder bytes = remainder rest :=
  (congrArg Prod.snd (readAll_of_cut h) :)

theorem frames_of_short (h : cutFrame bytes = none) : frames bytes = [] :=
  congrArg Prod.fst (readAll_of_short h)

theorem remainder_of_short (h : cutFrame bytes = none) : remainder bytes = bytes :=
  congrArg Prod.snd (readAll_of_short h)

@[simp] theorem frames_nil : frames [] = [] := frames_of_short rfl

@[simp] theorem remainder_nil : remainder [] = [] := remainder_of_short rfl

/-- A payload that a prefix can announce is cut off whole. -/
theorem cutFrame_frameBytes {payload : Bytes} (hne : payload ≠ [])
    (hlt : payload.length < 0x80000000) (rest : Bytes) :
    cutFrame (frameBytes payload ++ rest) = some (.ok payload, rest) := by
  have hpos : 0 < payload.length := List.length_pos_iff.2 hne
  simp only [frameBytes, prefixBytes, List.cons_append, List.nil_append]
  rw [cutFrame_announced (prefixValue_of_lt hlt), cutPayload_of_pos (by omega), Int.toNat_natCast,
    if_neg (by rw [List.length_append]; omega), List.take_left, List.drop_left]

end Reading

/-! ## Decoders -/

namespace Decoder

/-- The bytes of which nothing was made yet, with a prefix that was taken already. -/
def content (d : Decoder) : Bytes :=
  match d.due with
  | some length => prefixBytes length ++ d.buffer
  | none => d.buffer

/-- A length that is due was announced by a prefix. -/
def Valid (d : Decoder) : Prop :=
  ∀ length ∈ d.due, 0 < length ∧ length < 0x80000000

@[simp] theorem content_fresh (buffer : Bytes) : content ⟨none, buffer⟩ = buffer := rfl

@[simp] theorem content_due (length : Nat) (buffer : Bytes) :
    content ⟨some length, buffer⟩ = prefixBytes length ++ buffer := rfl

theorem valid_fresh (buffer : Bytes) : Valid ⟨none, buffer⟩ :=
  fun _ h => nomatch h

theorem content_feed (d : Decoder) (bytes : Bytes) :
    (d.feed bytes).content = d.content ++ bytes := by
  rcases d with ⟨_ | length, buffer⟩
  · rfl
  · exact (List.append_assoc ..).symm

theorem Valid.feed {d : Decoder} (h : d.Valid) (bytes : Bytes) : (d.feed bytes).Valid := h

theorem cutFrame_due {length : Nat} (hpos : 0 < length) (hlt : length < 0x80000000)
    (buffer : Bytes) :
    cutFrame (prefixBytes length ++ buffer) =
      if buffer.length < length then none
      else some (.ok (buffer.take length), buffer.drop length) := by
  simp only [prefixBytes, List.cons_append, List.nil_append]
  rw [cutFrame_announced (prefixValue_of_lt hlt), cutPayload_of_pos (by omega), Int.toNat_natCast]

theorem takePayload_of_lt {length : Nat} {buffer : Bytes} (h : buffer.length < length) :
    takePayload length buffer = (none, ⟨some length, buffer⟩) :=
  if_pos h

theorem takePayload_of_le {length : Nat} {buffer : Bytes} (h : length ≤ buffer.length) :
    takePayload length buffer = (some (buffer.take length), ⟨none, buffer.drop length⟩) :=
  if_neg (Nat.not_lt.2 h)

theorem takeAnnounced_of_pos {announced : Int} (h : 0 < announced) (buffer : Bytes) :
    takeAnnounced announced buffer =
      (.ok (takePayload announced.toNat buffer).1, (takePayload announced.toNat buffer).2) := by
  rw [takeAnnounced, if_neg (by omega), if_neg (by omega)]

theorem next_announced {b₀ b₁ b₂ b₃ : UInt8} {announced : Int}
    (h : prefixValue b₀ b₁ b₂ b₃ = announced) (buffer : Bytes) :
    next ⟨none, b₀ :: b₁ :: b₂ :: b₃ :: buffer⟩ = takeAnnounced announced buffer := by
  rw [← h]
  rfl

theorem next_of_length_lt {buffer : Bytes} (h : buffer.length < prefixLength) :
    next ⟨none, buffer⟩ = (.ok none, ⟨none, buffer⟩) := by
  match buffer with
  | [] | [_] | [_, _] | [_, _, _] => rfl
  | b₀ :: b₁ :: b₂ :: b₃ :: rest => exact absurd h (by simp [prefixLength])

theorem next_due (length : Nat) (buffer : Bytes) :
    next ⟨some length, buffer⟩ =
      (.ok (takePayload length buffer).1, (takePayload length buffer).2) :=
  rfl

/-- A decoder yields what can be cut from its content. -/
theorem next_of_cut {d : Decoder} (hd : d.Valid) {event : FrameEvent} {rest : Bytes}
    (h : cutFrame d.content = some (event, rest)) : d.next = (event.map some, ⟨none, rest⟩) := by
  rcases d with ⟨_ | length, buffer⟩
  · rw [content_fresh] at h
    obtain ⟨b₀, b₁, b₂, b₃, tail, announced, rfl, hannounced, hcut⟩ := exists_prefix_of_cutFrame h
    rw [next_announced hannounced]
    obtain ⟨hneg, rfl, rfl⟩ | ⟨hzero, rfl, rfl⟩ | ⟨hpos, hlen, rfl, rfl⟩ := cutPayload_eq_some hcut
    · exact if_pos hneg
    · rw [hzero]
      rfl
    · rw [takeAnnounced_of_pos hpos, takePayload_of_le hlen]
      rfl
  · obtain ⟨hpos, hlt⟩ := hd length rfl
    rw [content_due, cutFrame_due hpos hlt] at h
    split at h
    case isTrue => cases h
    case isFalse hlen =>
      cases h
      rw [next_due, takePayload_of_le (Nat.le_of_not_lt hlen)]
      rfl

/-- Where nothing can be cut, a decoder waits, and makes nothing of its content. It
has taken a prefix if there is one. -/
theorem next_of_short {d : Decoder} (hd : d.Valid) (h : cutFrame d.content = none) :
    ∃ d', d.next = (.ok none, d') ∧ d'.content = d.content ∧ d'.Valid ∧
      (d'.due = none → d'.buffer.length < prefixLength) := by
  rcases d with ⟨_ | length, buffer⟩
  · rw [content_fresh] at h
    obtain hlen | ⟨b₀, b₁, b₂, b₃, tail, announced, rfl, hannounced, hpos, hlen⟩ :=
      cutFrame_eq_none h
    · exact ⟨_, next_of_length_lt hlen, rfl, hd, fun _ => hlen⟩
    · have hlt := prefixValue_lt b₀ b₁ b₂ b₃
      have hprefix := @prefixBytes_of_pos b₀ b₁ b₂ b₃
      rw [hannounced] at hlt hprefix
      rw [next_announced hannounced, takeAnnounced_of_pos hpos, takePayload_of_lt hlen]
      refine ⟨_, rfl, ?_, ?_, fun hdue => nomatch hdue⟩
      · rw [content_due, hprefix hpos]
        rfl
      · intro length hlength
        cases hlength
        omega
  · obtain ⟨hpos, hlt⟩ := hd length rfl
    rw [content_due, cutFrame_due hpos hlt] at h
    split at h
    case isFalse => cases h
    case isTrue hlen =>
      rw [next_due, takePayload_of_lt hlen]
      exact ⟨_, rfl, rfl, hd, fun hdue => nomatch hdue⟩

theorem cut_of_next {d d' : Decoder} (hd : d.Valid) {event : FrameEvent}
    (h : d.next = (event.map some, d')) :
    ∃ rest, cutFrame d.content = some (event, rest) ∧ d' = ⟨none, rest⟩ := by
  cases hcut : cutFrame d.content with
  | some found =>
    obtain ⟨event', rest⟩ := found
    obtain ⟨hevent, rfl⟩ := Prod.mk.inj ((next_of_cut hd hcut).symm.trans h)
    obtain rfl : event' = event := by
      cases event' <;> cases event <;> cases hevent <;> rfl
    exact ⟨rest, rfl, rfl⟩
  | none =>
    obtain ⟨d'', hnext, -⟩ := next_of_short hd hcut
    cases event <;> cases hnext.symm.trans h

theorem short_of_next {d d' : Decoder} (hd : d.Valid) (h : d.next = (.ok none, d')) :
    cutFrame d.content = none ∧ d'.content = d.content ∧ d'.Valid := by
  cases hcut : cutFrame d.content with
  | some found =>
    obtain ⟨event, rest⟩ := found
    have hnext := (next_of_cut hd hcut).symm.trans h
    cases event <;> cases hnext
  | none =>
    obtain ⟨d'', hnext, hcontent, hvalid, -⟩ := next_of_short hd hcut
    cases hnext.symm.trans h
    exact ⟨rfl, hcontent, hvalid⟩

/-- At the end of the stream a decoder tells whether it stops between two frames. -/
theorem finish_of_short {d : Decoder} (hd : d.Valid) (h : cutFrame d.content = none) :
    d.finish.1 = ending d.content := by
  obtain ⟨d', hnext, hcontent, hvalid, hshort⟩ := next_of_short hd h
  rw [← hcontent, finish, hnext]
  rcases d' with ⟨_ | length, buffer⟩
  · match buffer, hshort rfl with
    | [], _ | [_], _ | [_, _], _ | [_, _, _], _ => rfl
  · obtain ⟨hpos, hlt⟩ := hvalid length rfl
    exact (ending_announced (prefixValue_of_lt hlt) buffer).symm

/-! ## Runs of decoders -/

/-- What can be done with a decoder. -/
inductive Move where
  | feed (bytes : Bytes)
  | next

/-- What a decoder yields, if it is anything. -/
def eventsOf : Except FrameFault (Option Bytes) → List FrameEvent
  | .ok none => []
  | .ok (some payload) => [.ok payload]
  | .error fault => [.error fault]

@[simp] theorem eventsOf_map_some (event : FrameEvent) : eventsOf (event.map some) = [event] := by
  cases event <;> rfl

/-- Makes moves, and yields what came of them in order. -/
def run (d : Decoder) : List Move → List FrameEvent × Decoder
  | [] => ([], d)
  | .feed bytes :: moves => (d.feed bytes).run moves
  | .next :: moves => (eventsOf d.next.1 ++ (d.next.2.run moves).1, (d.next.2.run moves).2)

/-- All bytes that moves feed. -/
def fed : List Move → Bytes
  | [] => []
  | .feed bytes :: moves => bytes ++ fed moves
  | .next :: moves => fed moves

/-- Whenever a decoder is asked, it takes from the front of its content, and the bytes
that are fed later stay behind that. -/
theorem frames_of_run (moves : List Move) {d : Decoder} (hd : d.Valid) :
    (d.run moves).2.Valid ∧
      frames (d.content ++ fed moves) = (d.run moves).1 ++ frames (d.run moves).2.content ∧
      remainder (d.content ++ fed moves) = remainder (d.run moves).2.content := by
  -- The content of the decoder and the bytes still to be fed are the stream that is left.
  induction moves generalizing d with
  | nil =>
    rw [fed, List.append_nil]
    exact ⟨hd, rfl, rfl⟩
  | cons move moves ih =>
    cases move with
    | feed bytes =>
      have hrun := ih (hd.feed bytes)
      rw [content_feed, List.append_assoc] at hrun
      exact hrun
    | next =>
      rw [run, fed]
      cases hcut : cutFrame d.content with
      | some found =>
        obtain ⟨event, rest⟩ := found
        have hrun := ih (valid_fresh rest)
        have hmore := cutFrame_append hcut (fed moves)
        rw [next_of_cut hd hcut, frames_of_cut hmore, remainder_of_cut hmore, eventsOf_map_some]
        obtain ⟨hvalid, hframes, hleft⟩ := hrun
        rw [content_fresh] at hframes hleft
        exact ⟨hvalid, congrArg (event :: ·) hframes, hleft⟩
      | none =>
        obtain ⟨d', hnext, hcontent, hvalid, -⟩ := next_of_short hd hcut
        have hrun := ih hvalid
        rw [hcontent] at hrun
        rw [hnext]
        exact hrun

/-! ## Draining -/

/-- Goes down whenever something is taken. -/
def weight (d : Decoder) : Nat :=
  2 * d.buffer.length + if d.due.isSome then 1 else 0

theorem weight_lt_of_takePayload {length : Nat} {buffer : Bytes}
    (h : (takePayload length buffer).1 ≠ none) :
    (takePayload length buffer).2.weight ≤ 2 * buffer.length := by
  rcases Nat.lt_or_ge buffer.length length with hlen | hlen
  · rw [takePayload_of_lt hlen] at h
    exact absurd rfl h
  · rw [takePayload_of_le hlen, weight, List.length_drop]
    simp only [Option.isSome_none, Bool.false_eq_true, if_false]
    omega

theorem weight_lt_of_next {d d' : Decoder} {result : Except FrameFault (Option Bytes)}
    (h : d.next = (result, d')) (hresult : result ≠ .ok none) : d'.weight < d.weight := by
  rcases d with ⟨_ | length, buffer⟩
  · rcases Nat.lt_or_ge buffer.length prefixLength with hlen | hlen
    · rw [next_of_length_lt hlen] at h
      cases h
      exact absurd rfl hresult
    · obtain ⟨b₀, b₁, b₂, b₃, tail, announced, rfl, hannounced⟩ := exists_prefix hlen
      have hlong : 2 * tail.length < weight ⟨none, b₀ :: b₁ :: b₂ :: b₃ :: tail⟩ := by
        simp only [weight, List.length_cons]
        omega
      refine Nat.lt_of_le_of_lt ?_ hlong
      rw [next_announced hannounced, takeAnnounced] at h
      split at h
      · cases h
        exact Nat.le_refl _
      · split at h
        · cases h
          exact Nat.le_refl _
        · cases h
          exact weight_lt_of_takePayload fun hnone => hresult (congrArg Except.ok hnone)
  · rw [next_due] at h
    cases h
    have hsome : (takePayload length buffer).1 ≠ none :=
      fun hnone => hresult (congrArg Except.ok hnone)
    exact Nat.lt_succ_of_le (weight_lt_of_takePayload hsome)

/-- Asks a decoder until it has nothing more to yield. -/
def drain (d : Decoder) : List FrameEvent × Decoder :=
  match h : d.next with
  | (.ok none, d') => ([], d')
  | (.ok (some payload), d') =>
    have := weight_lt_of_next h (by simp)
    (.ok payload :: (drain d').1, (drain d').2)
  | (.error fault, d') =>
    have := weight_lt_of_next h (by simp)
    (.error fault :: (drain d').1, (drain d').2)
termination_by d.weight

/-- Draining yields all that can be cut, and leaves the rest. -/
theorem drain_eq {d : Decoder} (hd : d.Valid) :
    d.drain.1 = frames d.content ∧ d.drain.2.content = remainder d.content ∧ d.drain.2.Valid := by
  fun_induction drain d with
  | case1 d d' h =>
    obtain ⟨hcut, hcontent, hvalid⟩ := short_of_next hd h
    rw [frames_of_short hcut, remainder_of_short hcut]
    exact ⟨rfl, hcontent, hvalid⟩
  | case2 d payload d' h hlt ih =>
    obtain ⟨rest, hcut, rfl⟩ :=
      cut_of_next hd (show d.next = (Except.map some (.ok payload), d') from h)
    rw [frames_of_cut hcut, remainder_of_cut hcut]
    obtain ⟨hframes, hleft, hvalid⟩ := ih (valid_fresh rest)
    exact ⟨congrArg (_ :: ·) hframes, hleft, hvalid⟩
  | case3 d fault d' h hlt ih =>
    obtain ⟨rest, hcut, rfl⟩ :=
      cut_of_next hd (show d.next = (Except.map some (.error fault), d') from h)
    rw [frames_of_cut hcut, remainder_of_cut hcut]
    obtain ⟨hframes, hleft, hvalid⟩ := ih (valid_fresh rest)
    exact ⟨congrArg (_ :: ·) hframes, hleft, hvalid⟩

end Decoder

/-! ## Whole streams -/

/-- What is left has no frame at its front. -/
theorem cutFrame_remainder (bytes : Bytes) : cutFrame (remainder bytes) = none := by
  induction h : bytes.length using Nat.strongRecOn generalizing bytes with
  | ind n ih =>
    cases hcut : cutFrame bytes with
    | none =>
      rw [remainder_of_short hcut]
      exact hcut
    | some found =>
      obtain ⟨event, rest⟩ := found
      rw [remainder_of_cut hcut]
      exact ih rest.length (h ▸ length_lt_of_cutFrame hcut) rest rfl

/-- Only the end of the stream between two frames is no fault. -/
theorem ending_eq_ok_iff {bytes : Bytes} {payload : Option Bytes} :
    ending bytes = .ok payload ↔ bytes = [] ∧ payload = none := by
  match bytes with
  | [] => exact ⟨fun h => ⟨rfl, (Except.ok.inj h).symm⟩, fun h => congrArg Except.ok h.2.symm⟩
  | [_] | [_, _] | [_, _, _] | _ :: _ :: _ :: _ :: _ =>
    exact ⟨fun h => (nomatch h), fun h => (nomatch h.1)⟩

/-- The bytes of payloads, each in a frame of its own. -/
def encodeAll (payloads : List Bytes) : Except FrameFault Bytes :=
  (payloads.mapM encode).map List.flatten

theorem encodeAll_eq {payloads : List Bytes} (h : ∀ p ∈ payloads, p.length < 0x80000000) :
    encodeAll payloads = .ok (payloads.flatMap frameBytes) := by
  have hmap : payloads.mapM encode = .ok (payloads.map frameBytes) := by
    induction payloads with
    | nil => rfl
    | cons p payloads ih =>
      have hp : encode p = .ok (frameBytes p) := if_pos (h p (List.mem_cons_self ..))
      rw [List.mapM_cons, hp, ih fun q hq => h q (List.mem_cons_of_mem p hq)]
      rfl
  rw [encodeAll, hmap]
  rfl

/-- Payloads in frames are cut off one after the other. -/
theorem readAll_flatMap_frameBytes {payloads : List Bytes}
    (h : ∀ p ∈ payloads, p ≠ [] ∧ p.length < 0x80000000) (rest : Bytes) :
    frames (payloads.flatMap frameBytes ++ rest) = payloads.map .ok ++ frames rest ∧
      remainder (payloads.flatMap frameBytes ++ rest) = remainder rest := by
  induction payloads with
  | nil => exact ⟨rfl, rfl⟩
  | cons p payloads ih =>
    obtain ⟨hne, hlt⟩ := h p (List.mem_cons_self ..)
    have hcut := cutFrame_frameBytes hne hlt (payloads.flatMap frameBytes ++ rest)
    obtain ⟨hframes, hleft⟩ := ih fun q hq => h q (List.mem_cons_of_mem p hq)
    rw [List.flatMap_cons, List.append_assoc, frames_of_cut hcut, remainder_of_cut hcut]
    exact ⟨congrArg (_ :: ·) hframes, hleft⟩

/-- However the bytes of a stream are cut into pieces, and however often a decoder is
asked in between, it yields the frames and faults of the whole, and the end of the
stream is a fault unless it lies between two frames. So payloads that were encoded
are read back. -/
theorem decode_pieces (moves : List Decoder.Move) :
    (Decoder.empty.run moves).1 ++ (Decoder.empty.run moves).2.drain.1 =
        frames (Decoder.fed moves) ∧
      (Decoder.empty.run moves).2.drain.2.finish.1 = ending (remainder (Decoder.fed moves)) ∧
      (ending (remainder (Decoder.fed moves)) = .ok none ↔ remainder (Decoder.fed moves) = []) ∧
      ∀ payloads : List Bytes, (∀ p ∈ payloads, p ≠ [] ∧ p.length < 0x80000000) →
        ∃ bytes, encodeAll payloads = .ok bytes ∧
          (Decoder.fed moves = bytes →
            (Decoder.empty.run moves).1 ++ (Decoder.empty.run moves).2.drain.1 =
                payloads.map .ok ∧
              (Decoder.empty.run moves).2.drain.2.finish.1 = .ok none) := by
  have hempty : Decoder.empty.Valid := Decoder.valid_fresh []
  obtain ⟨hvalid, hframes, hleft⟩ := Decoder.frames_of_run moves hempty
  obtain ⟨hdrain, hrest, hvalid'⟩ := Decoder.drain_eq hvalid
  change frames (Decoder.fed moves) = _ at hframes
  change remainder (Decoder.fed moves) = _ at hleft
  have hevents : (Decoder.empty.run moves).1 ++ (Decoder.empty.run moves).2.drain.1 =
      frames (Decoder.fed moves) := by
    rw [hframes, hdrain]
  have hend : (Decoder.empty.run moves).2.drain.2.finish.1 =
      ending (remainder (Decoder.fed moves)) := by
    have hcut : cutFrame (Decoder.empty.run moves).2.drain.2.content = none := by
      rw [hrest]
      exact cutFrame_remainder _
    rw [Decoder.finish_of_short hvalid' hcut, hrest, hleft]
  have hboundary : ending (remainder (Decoder.fed moves)) = .ok none ↔
      remainder (Decoder.fed moves) = [] := by
    rw [ending_eq_ok_iff]
    exact and_iff_left rfl
  refine ⟨hevents, hend, hboundary, ?_⟩
  intro payloads h
  refine ⟨_, encodeAll_eq fun p hp => (h p hp).2, fun hfed => ?_⟩
  obtain ⟨hback, hnothing⟩ := readAll_flatMap_frameBytes h []
  rw [List.append_nil, ← hfed, frames_nil, List.append_nil] at hback
  rw [List.append_nil, ← hfed, remainder_nil] at hnothing
  exact ⟨hevents.trans hback, hend.trans (hboundary.2 hnothing)⟩

/-- Two frames, cut inside a prefix and inside a payload. -/
theorem decode_pieces_cut_twice :
    (Decoder.empty.run
        [.feed [1, 0], .next, .feed [0, 0, 0x41, 2, 0, 0, 0, 0x42], .next, .feed [0x43]]).1 ++
      (Decoder.empty.run
        [.feed [1, 0], .next, .feed [0, 0, 0x41, 2, 0, 0, 0, 0x42], .next,
          .feed [0x43]]).2.drain.1 = [.ok [0x41], .ok [0x42, 0x43]] := by
  obtain ⟨-, -, -, hback⟩ := decode_pieces
    [.feed [1, 0], .next, .feed [0, 0, 0x41, 2, 0, 0, 0, 0x42], .next, .feed [0x43]]
  obtain ⟨bytes, hbytes, hread⟩ := hback [[0x41], [0x42, 0x43]] (by decide)
  exact (hread (Except.ok.inj hbytes)).1

end Parley.Wire
