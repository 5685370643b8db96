import Parley.Wire.Fault

/-!
# Faults of a flow

Why a flow ended other than by one end leaving.
-/

namespace Parley.Chat

/-- What can be wrong with the other end's opening frames. -/
inductive HandshakeFault where
  | missingSignature
  | signatureMismatch
  | missingName

def HandshakeFault.message : HandshakeFault → String
  | .missingSignature => "peer did not answer with a signature frame"
  | .signatureMismatch => "peer sent a signature that does not match"
  | .missingName => "peer did not send a display name"

/-- Why a flow failed. -/
inductive FlowFault where
  | handshake (fault : HandshakeFault)
  | disposed
  | alreadyStarted
  | inputUnavailable
  | io (fault : Wire.IoFault)

def FlowFault.message : FlowFault → String
  | .handshake fault => "handshake failed: " ++ fault.message
  | .disposed => "flow has already been disposed"
  | .alreadyStarted => "flow has already been started"
  | .inputUnavailable => "local input is already bound to another flow"
  | .io fault => "io error: " ++ fault.message

end Parley.Chat
