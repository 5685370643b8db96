import Parley.Proofs.Wire.Writing

/-!
# Payloads on their way

Payloads that were sent are a text of bytes: their frames, one behind the other. Whoever
has only the beginning of that text reads the first payloads out of it, and no others.

- `Fits`: whether a frame can carry a payload. `longText` is one that it cannot.
- `frameEvent`: what a frame is read as.
- `frames_mono`: more bytes add to what is read, and change nothing of it.
- `frames_flatMap_frameBytes`: frames are read back.
- `cutFrame_of_append`: the frame at the front of the beginning of a text.
- `transcript`, `cutFrame_of_prefix`: payloads that are sent, and the next of them.
-/

namespace Parley.Wire

/-- Whether a frame can carry a payload. -/
def Fits (payload : Bytes) : Prop :=
  payload.length < 0x80000000

instance (payload : Bytes) : Decidable (Fits payload) :=
  inferInstanceAs (Decidable (payload.length < 0x80000000))

theorem frameOf_of_fits {payload : Bytes} (h : Fits payload) :
    frameOf payload = frameBytes payload :=
  frameOf_of_ok (if_pos h)

theorem frameOf_of_not_fits {payload : Bytes} (h : ¬ Fits payload) : frameOf payload = [] :=
  frameOf_eq_nil_iff.2 (Nat.le_of_not_lt h)

/-- A text of so many letters. -/
def letters (count : Nat) : String :=
  String.ofList (List.replicate count 'a')

theorem length_encode_letters (count : Nat) :
    (Text.Utf8.encode (letters count)).length = count := by
  have hletter : (String.utf8EncodeChar 'a').length = 1 := rfl
  rw [Text.Utf8.encode, letters, String.toList_ofList]
  induction count with
  | zero => rfl
  | succ count ih =>
    rw [List.replicate_succ, List.flatMap_cons, List.length_append, ih, hletter, Nat.add_comm]

/-- The shortest of these texts that fits no frame. -/
def longText : String :=
  letters 0x80000000

theorem not_fits_longText : ¬ Fits (Text.Utf8.encode longText) := by
  rw [Fits, longText, length_encode_letters]
  exact Nat.lt_irrefl _

theorem longText_ne_empty : longText ≠ "" := by
  intro hempty
  have hlength := length_encode_letters 0x80000000
  rw [← longText, hempty] at hlength
  cases hlength

theorem length_frameBytes (payload : Bytes) :
    (frameBytes payload).length = prefixLength + payload.length := by
  rw [frameBytes, List.length_append]
  rfl

/-- What a frame is read as. A frame without a payload is a fault. -/
def frameEvent (payload : Bytes) : FrameEvent :=
  if payload = [] then .error .emptyFrame else .ok payload

theorem frameEvent_of_ne_nil {payload : Bytes} (h : payload ≠ []) :
    frameEvent payload = .ok payload :=
  if_neg h

theorem cutFrame_event {payload : Bytes} (h : Fits payload) (rest : Bytes) :
    cutFrame (frameBytes payload ++ rest) = some (frameEvent payload, rest) := by
  by_cases hnil : payload = []
  · obtain rfl := hnil
    exact cutFrame_announced (prefixValue_of_lt h)
  · rw [frameEvent_of_ne_nil hnil]
    exact cutFrame_frameBytes hnil h rest

/-- Frames that follow each other are read in order. -/
theorem frames_flatMap_frameBytes {payloads : List Bytes} (h : ∀ p ∈ payloads, Fits p) :
    frames (payloads.flatMap frameBytes) = payloads.map frameEvent := by
  induction payloads with
  | nil => exact frames_nil
  | cons payload payloads ih =>
    obtain ⟨hfits, hrest⟩ := List.forall_mem_cons.1 h
    rw [List.flatMap_cons, frames_of_cut (cutFrame_event hfits _), ih hrest, List.map_cons]

/-- What is read from a text is read from its beginning first. -/
theorem frames_mono {bytes whole : Bytes} (h : bytes <+: whole) :
    frames bytes <+: frames whole := by
  obtain ⟨more, rfl⟩ := h
  induction hlength : bytes.length using Nat.strongRecOn generalizing bytes with
  | ind length ih =>
    cases hcut : cutFrame bytes with
    | none =>
      rw [frames_of_short hcut]
      exact List.nil_prefix
    | some found =>
      obtain ⟨event, rest⟩ := found
      rw [frames_of_cut hcut, frames_of_cut (cutFrame_append hcut more)]
      exact List.cons_prefix_cons.2
        ⟨rfl, ih rest.length (hlength ▸ length_lt_of_cutFrame hcut) rfl⟩

/-- A decoder yields what is read from the bytes it was fed, as far as it was asked. -/
theorem Decoder.run_prefix (moves : List Move) :
    (empty.run moves).1 <+: frames (fed moves) := by
  obtain ⟨-, hframes, -⟩ := frames_of_run moves (valid_fresh [])
  exact ⟨_, hframes.symm⟩

/-! ## The beginning of a text -/

section Beginning

variable {unread more rest payload : Bytes}

/-- The frame at the front of a text is found in its beginning as soon as all of it is there. -/
theorem cutFrame_of_append (hne : payload ≠ []) (hfits : Fits payload)
    (h : unread ++ more = frameBytes payload ++ rest) :
    cutFrame unread = none ∧ unread.length < (frameBytes payload).length ∨
      ∃ left, cutFrame unread = some (.ok payload, left) ∧ left ++ more = rest := by
  rcases Nat.lt_or_ge unread.length (frameBytes payload).length with hshort | hlong
  · refine .inl ⟨?_, hshort⟩
    cases hcut : cutFrame unread with
    | none => rfl
    | some found =>
      -- A cut from the beginning is one from the whole, and that takes the payload.
      obtain ⟨event, left⟩ := found
      have hwhole := cutFrame_append hcut more
      rw [h, cutFrame_frameBytes hne hfits] at hwhole
      obtain ⟨hevent, -⟩ := Prod.mk.inj (Option.some.inj hwhole)
      rw [← hevent] at hcut
      have hlength := length_of_cutFrame hcut
      rw [length_frameBytes] at hshort
      omega
  · obtain ⟨left, rfl⟩ : frameBytes payload <+: unread :=
      List.prefix_of_prefix_length_le ⟨rest, h.symm⟩ ⟨more, rfl⟩ hlong
    rw [List.append_assoc] at h
    exact .inr ⟨left, cutFrame_frameBytes hne hfits left, List.append_cancel_left h⟩

end Beginning

/-! ## Payloads in order -/

/-- The bytes that payloads are sent as. -/
def transcript (payloads : List Bytes) : Bytes :=
  payloads.flatMap frameOf

/-- No payload is empty, and only the last one may fit no frame. -/
def Proper (payloads : List Bytes) : Prop :=
  ∀ r q, payloads[r]? = some q → q ≠ [] ∧ (Fits q ∨ payloads.length = r + 1)

section Proper

variable {payloads : List Bytes} {r : Nat} {q : Bytes}

theorem transcript_take_succ (h : payloads[r]? = some q) :
    transcript (payloads.take (r + 1)) = transcript (payloads.take r) ++ frameOf q := by
  rw [transcript, transcript, List.take_add_one, h, List.flatMap_append]
  exact congrArg _ (List.append_nil _)

theorem transcript_take_append_drop (payloads : List Bytes) (r : Nat) :
    transcript (payloads.take r) ++ transcript (payloads.drop r) = transcript payloads := by
  rw [transcript, transcript, ← List.flatMap_append, List.take_append_drop, ← transcript]

theorem transcript_take_prefix {n : Nat} (h : r ≤ n) :
    transcript (payloads.take r) <+: transcript (payloads.take n) := by
  rw [← transcript_take_append_drop (payloads.take n) r, List.take_take, Nat.min_eq_left h]
  exact List.prefix_append ..

/-- What is unread behind the first payloads is the beginning of the next frame, or has it in
front. -/
theorem cutFrame_of_prefix (hproper : Proper payloads) (hq : payloads[r]? = some q)
    {unread : Bytes} (h : transcript (payloads.take r) ++ unread <+: transcript payloads) :
    cutFrame unread = none ∧ (Fits q → unread.length < (frameOf q).length) ∨
      Fits q ∧ ∃ left, cutFrame unread = some (.ok q, left) ∧
        transcript (payloads.take (r + 1)) ++ left =
          transcript (payloads.take r) ++ unread := by
  obtain ⟨hne, hlast⟩ := hproper r q hq
  obtain ⟨more, hmore⟩ := h
  have hrest : unread ++ more = frameOf q ++ transcript (payloads.drop (r + 1)) := by
    rw [← transcript_take_append_drop payloads (r + 1), transcript_take_succ hq,
      List.append_assoc, List.append_assoc] at hmore
    exact List.append_cancel_left hmore
  by_cases hfits : Fits q
  case pos =>
    rw [frameOf_of_fits hfits] at hrest
    obtain ⟨hcut, hshort⟩ | ⟨left, hcut, hleft⟩ := cutFrame_of_append hne hfits hrest
    · exact .inl ⟨hcut, fun _ => frameOf_of_fits hfits ▸ hshort⟩
    · refine .inr ⟨hfits, left, hcut, ?_⟩
      rw [transcript_take_succ hq, frameOf_of_fits hfits, List.append_assoc]
      have hunread : (frameBytes q ++ left) ++ more = unread ++ more := by
        rw [List.append_assoc, hleft, hrest]
      rw [List.append_cancel_right hunread]
  case neg =>
    -- Nothing comes behind a payload that fits no frame, and nothing of it.
    have hlength : payloads.length = r + 1 := hlast.resolve_left hfits
    rw [frameOf_of_not_fits hfits, ← hlength, List.drop_length] at hrest
    obtain ⟨rfl, -⟩ := List.append_eq_nil_iff.1 hrest
    exact .inl ⟨rfl, fun h => absurd h hfits⟩

end Proper

end Parley.Wire
