import PushGate.Message.Route
import PushGate.Signature

/-!
# The log

What the gateway reports of its work, one entry for each thing that happened.  An entry is a cause
with the values that belong to it; its level, its event name and its named fields follow from it.
-/

namespace PushGate

/-- How serious an entry is. -/
inductive LogLevel where
  | debug
  | info
  | warn
deriving DecidableEq

def LogLevel.name : LogLevel → String
  | .debug => "DEBUG"
  | .info => "INFO"
  | .warn => "WARN"

/-- What a named field of an entry holds. -/
inductive LogValue where
  | text (s : String)
  | number (n : Int)
  | flag (b : Bool)
deriving DecidableEq

/-- Something that happened. -/
inductive LogEntry where
  /-- A signature of `actualLength` bytes was refused. -/
  | signatureMismatch (actualLength : Nat)
  | dispatcherBuilt (poolSize maxBodyBytes : Nat)
  /-- A message is about to be handled. -/
  | requestRouted (route : Route) (msgType event fromUser : String)
  /-- A message met the standard handler of its route. -/
  | defaultHandler (route : Route) (fromUser : String) (msgId : Int64)
  /-- A message that is not recognised met the standard handler. -/
  | unknownRequest (msgType event fromUser : String)
  /-- A rejected exchange met the standard handler. -/
  | invalidRequest (method path : String) (status : Nat) (error : String)
  /-- A setting has no value of its type. -/
  | invalidSetting (setting value : String)
  /-- The webhook's path is that of the health check. -/
  | reservedPath (setting path : String)
  /-- The platform's handshake succeeded. -/
  | urlVerified
  /-- The platform's handshake failed. -/
  | urlVerificationFailed (hasSignature hasEchostr : Bool)
  /-- The platform's handshake came with a query that cannot be read. -/
  | urlQueryUnreadable (error : String)
deriving DecidableEq

namespace LogEntry

def level : LogEntry → LogLevel
  | .signatureMismatch _ => .debug
  | .dispatcherBuilt _ _ => .info
  | .requestRouted _ _ _ _ => .debug
  | .defaultHandler _ _ _ => .debug
  | .unknownRequest _ _ _ => .warn
  | .invalidRequest _ _ _ _ => .warn
  | .invalidSetting _ _ => .warn
  | .reservedPath _ _ => .warn
  | .urlVerified => .info
  | .urlVerificationFailed _ _ => .warn
  | .urlQueryUnreadable _ => .warn

def event : LogEntry → String
  | .signatureMismatch _ => "wechat_signature_mismatch"
  | .dispatcherBuilt _ _ => "dispatcher_built"
  | .requestRouted _ _ _ _ => "wechat_request_routed"
  | .defaultHandler _ _ _ => "wechat_default_handler"
  | .unknownRequest _ _ _ => "wechat_unknown_request"
  | .invalidRequest _ _ _ _ => "wechat_invalid_request"
  | .invalidSetting _ _ => "Invalid value, using default"
  | .reservedPath _ _ => "Path reserved for health check, using default"
  | .urlVerified => "wechat_url_verified"
  | .urlVerificationFailed _ _ => "wechat_url_verification_failed"
  | .urlQueryUnreadable _ => "wechat_url_verification_failed"

def fields : LogEntry → List (String × LogValue)
  | .signatureMismatch actualLength =>
      [("expected_length", .number Signature.size), ("actual_length", .number actualLength)]
  | .dispatcherBuilt poolSize maxBodyBytes =>
      [("pool_size", .number poolSize), ("max_body_bytes", .number maxBodyBytes)]
  | .requestRouted route msgType event fromUser =>
      [("route", .text route.name), ("msg_type", .text msgType), ("event", .text event),
        ("from_user", .text fromUser)]
  | .defaultHandler route fromUser msgId =>
      [("route", .text route.name), ("from_user", .text fromUser),
        ("msg_id", .number msgId.toInt)]
  | .unknownRequest msgType event fromUser =>
      [("msg_type", .text msgType), ("event", .text event), ("from_user", .text fromUser)]
  | .invalidRequest method path status error =>
      [("method", .text method), ("path", .text path), ("status", .number status),
        ("error", .text error)]
  | .invalidSetting setting value => [("env_var", .text setting), ("value", .text value)]
  | .reservedPath setting path => [("env_var", .text setting), ("value", .text path)]
  | .urlVerified => []
  | .urlVerificationFailed hasSignature hasEchostr =>
      [("has_signature", .flag hasSignature), ("has_echostr", .flag hasEchostr)]
  | .urlQueryUnreadable error => [("error", .text error)]

end LogEntry
end PushGate
