import PushGate.Exchange.Response
import PushGate.Log
import PushGate.Pool.OfMessages
import PushGate.Rejection

/-!
# Records of exchanges

What an exchange leaves behind: its answer, the handlers that were called for it, what was reported,
and the counters of the pool.  A handler may have further exchanges handled before it answers; their
records are part of its call.
-/

namespace PushGate

/-- How an exchange ends. -/
inductive Answer where
  | response (r : Response)
  /-- The body never came to an end, and the exchange was given up. -/
  | cancelled
  /-- The handler panicked, with a text that says why. -/
  | panicked (cause : String)
deriving DecidableEq

/-- What a handler is called for. -/
inductive Occasion where
  /-- A message that took a route. -/
  | message (route : Route) (m : Message)
  | rejection (e : Rejection)
deriving DecidableEq

/-- A call of a handler; `ρ` is the type of records. -/
structure Call (ρ : Type) where
  occasion : Occasion
  head : Head
  /-- The counters of the pool when the handler was entered. -/
  pool : Pool.Stats
  /-- The exchanges that the handler had handled, in order. -/
  nested : List ρ

/-- What an exchange leaves behind. -/
structure Record where
  head : Head
  answer : Answer
  /-- The handlers called for it, in order. -/
  calls : List (Call Record)
  /-- What was reported, in order. -/
  log : List LogEntry
  /-- The counters of the pool at its end. -/
  pool : Pool.Stats

end PushGate
