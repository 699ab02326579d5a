import PushGate.Dispatcher.Basic

/-!
# Settings

The gateway takes its settings from five environment variables.  A variable that is absent, or not
UTF-8, counts as not set.  Blanks around a number or path do not matter.  A number that its variable
does not give is the default, and so is a path that is blank; a number that is given but is none, or
too large, and a path that is that of the health check, are reported besides.

**Results.**
* `slashed_head`: the webhook's path begins with a slash.
-/

namespace PushGate

/-- The variables that hold settings. -/
inductive Setting where
  | token
  | port
  | webhookPath
  | poolSize
  | maxBodyBytes
deriving DecidableEq

def Setting.name : Setting → String
  | .token => "WECHAT_TOKEN"
  | .port => "PORT"
  | .webhookPath => "WEBHOOK_PATH"
  | .poolSize => "REQUEST_POOL_SIZE"
  | .maxBodyBytes => "MAX_BODY_BYTES"

/-- The values of the variables that are there. -/
abbrev Environment : Type :=
  Setting → Option Bytes

def Environment.text? (env : Environment) (s : Setting) : Option String :=
  (env s).bind Utf8.string?

def healthPath : String := "/health"

/-- What the gateway is set to. -/
structure Settings where
  token : String
  port : UInt16
  webhookPath : String
  poolSize : UInt64
  maxBodyBytes : UInt64
deriving DecidableEq

namespace Settings

/-- The settings of an empty environment. -/
def default : Settings where
  token := ""
  port := 8080
  webhookPath := "/wechat"
  poolSize := UInt64.ofNat defaultPoolSize
  maxBodyBytes := UInt64.ofNat defaultMaxBodyBytes

/-- A numeric setting, read by `parse`. -/
def number {α : Type} (s : Setting) (parse : List Char → Option α) (fallback : α) :
    Option String → α × List LogEntry
  | none => (fallback, [])
  | some value =>
      match parse (Text.trim value.toList) with
      | some n => (n, [])
      | none => (fallback, [.invalidSetting s.name value])

/-- A path that begins with a slash. -/
def slashed (path : List Char) : List Char :=
  if path.head? = some '/' then path else '/' :: path

def path (value : Option String) : String × List LogEntry :=
  let trimmed := Text.trim (value.getD "").toList
  if trimmed = [] then (default.webhookPath, [])
  else
    let given := String.ofList (slashed trimmed)
    if given = healthPath then
      (default.webhookPath, [.reservedPath Setting.webhookPath.name given])
    else (given, [])

/-- Loads the settings, with what is to be reported of them. -/
def load (env : Environment) : Settings × List LogEntry :=
  let (port, portLog) := number .port Decimal.uint16? default.port (env.text? .port)
  let (webhookPath, pathLog) := path (env.text? .webhookPath)
  let (poolSize, poolLog) :=
    number .poolSize Decimal.uint64? default.poolSize (env.text? .poolSize)
  let (maxBodyBytes, bodyLog) :=
    number .maxBodyBytes Decimal.uint64? default.maxBodyBytes (env.text? .maxBodyBytes)
  (⟨(env.text? .token).getD "", port, webhookPath, poolSize, maxBodyBytes⟩,
    portLog ++ pathLog ++ poolLog ++ bodyLog)

/-- A dispatcher with these settings, still without handlers of its own. -/
def builder (s : Settings) : Builder :=
  { token := s.token
    poolSize := s.poolSize.toNat
    maxBodyBytes := s.maxBodyBytes.toNat }

theorem slashed_head (path : List Char) : (slashed path).head? = some '/' := by
  unfold slashed
  split
  · assumption
  · rfl

end Settings
end PushGate
