import PushGate.Exchange.Intake
import PushGate.Message.Decoder

/-!
# Rejections

Why an exchange is not handed to a message handler, and what is said and answered then.
-/

namespace PushGate

/-- The parameters that authenticate a delivery. -/
inductive Parameter where
  | signature
  | timestamp
  | nonce
deriving DecidableEq

def Parameter.name : Parameter → String
  | .signature => "signature"
  | .timestamp => "timestamp"
  | .nonce => "nonce"

/-- Why an exchange is rejected. -/
inductive Rejection where
  | query
  /-- A parameter is absent or empty. -/
  | missing (p : Parameter)
  /-- The signature is not that of the delivery. -/
  | signatureMismatch
  /-- The body cannot be received. -/
  | body (cause : BodyError)
  /-- The body is no message. -/
  | message (fault : Decoder.Error)
deriving DecidableEq

/-- What is wrong with a query that cannot be read. -/
def unreadableQuery : String :=
  "Failed to deserialize query string"

namespace Rejection

def text : Rejection → String
  | .query => s!"invalid query string: {unreadableQuery}"
  | .missing p => s!"{p.name} is empty"
  | .signatureMismatch => "check signature failed"
  | .body cause => s!"failed to read request body: {cause.message}"
  | .message fault => s!"failed to decode message: {fault.message}"

/-- The status of the answer to a rejected exchange. -/
def status : Rejection → Nat
  | .signatureMismatch => 401
  | _ => 400

def reason : Rejection → String
  | .signatureMismatch => "Unauthorized"
  | _ => "Bad Request"

end Rejection
end PushGate
