import Parley.Chat.Fault
import Parley.Wire.Link

/-!
# The handshake

At the beginning of a flow both ends send a fixed signature and then their display
names. Each end sends before it reads.

- `signature`: the signature.
- `exchangeSignature`, `exchangeNames`: the two exchanges, as far as they go
  without waiting.
-/

namespace Parley.Chat

open Wire

/-- The first frame of every flow, in each direction. -/
def signature : Bytes :=
  [0x46, 0x41, 0x43, 0x48, 0x50, 0x49, 0x00, 0xff, 0x01, 0x23, 0x45, 0x67, 0x89, 0xab, 0xcd, 0xef]

/-- How far a part of the handshake got. -/
inductive Progress (α : Type) where
  | waiting (stage : Link.Stage)
  | finished (result : Except FlowFault α)

/-- Whether the frame that was received is the signature. -/
def checkSignature (own : Bytes) (reception : Reception) : Except FlowFault Unit :=
  if reception.payload.isEmpty then .error (.handshake .missingSignature)
  else if reception.payload ≠ own then .error (.handshake .signatureMismatch)
  else .ok ()

/-- The name in the frame that was received. -/
def checkName (reception : Reception) : Except FlowFault String :=
  if reception.text.isEmpty then .error (.handshake .missingName) else .ok reception.text

/-- Goes on with an exchange whose answer is then looked at. -/
def exchangeThen {α : Type} (payload : Bytes) (check : Reception → Except FlowFault α)
    (stage : Link.Stage) (l : Link) : Progress α × Link :=
  match l.exchange payload stage with
  | (.waiting stage, l) => (.waiting stage, l)
  | (.finished (.error fault), l) => (.finished (.error (.io fault)), l)
  | (.finished (.ok reception), l) => (.finished (check reception), l)

/-- Sends a signature and checks that the other end sent the very same. -/
def exchangeSignature (own : Bytes) : Link.Stage → Link → Progress Unit × Link :=
  exchangeThen own (checkSignature own)

/-- Sends a display name and reads the other end's. -/
def exchangeNames (localName : String) : Link.Stage → Link → Progress String × Link :=
  exchangeThen (Text.Utf8.encode localName) checkName

end Parley.Chat
