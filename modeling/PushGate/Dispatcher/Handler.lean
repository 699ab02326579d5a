import PushGate.Dispatcher.Record

/-!
# Handlers

A handler is given the head of a request and a message or a rejection, and acts: it answers, it
panics, or it first has a further exchange handled by the same dispatcher and goes on with that
exchange's answer.

Exchanges are nested to a finite depth.  A handler is told how many more may be opened inside one
another, and with none left it cannot open one: `Action 0` has no such step.  So every run ends.

There is a handler for each route and one for rejections, at all times: where none is registered,
the standard one reports the occasion and answers.  The answer to a message is then empty, which the
platform takes for "no reply".
-/

namespace PushGate

/-- What a handler does, with `room` more exchanges inside one another. -/
inductive Action (room : Nat) : Type where
  | reply (r : Response)
  | panic (cause : String)
  /-- Has an exchange handled, and goes on with its answer. -/
  | dispatch (opens : room ≠ 0) (x : Exchange) (next : Answer → Action room)

def MessageHandler : Type :=
  (room : Nat) → Head → Message → Action room

def RejectionHandler : Type :=
  (room : Nat) → Head → Rejection → Action room

structure Handlers where
  message : Route → Option MessageHandler := fun _ => none
  rejection : Option RejectionHandler := none

namespace Handlers

/-- Registers the handler of a route, in place of the one before. -/
def onRoute (hs : Handlers) (route : Route) (h : MessageHandler) : Handlers :=
  { hs with message := fun r => if r = route then some h else hs.message r }

/-- Registers the handler of rejections, in place of the one before. -/
def onRejection (hs : Handlers) (h : RejectionHandler) : Handlers :=
  { hs with rejection := some h }

/-- What the standard handler of a route reports. -/
def standardEntry (route : Route) (m : Message) : LogEntry :=
  if route = .unknown then .unknownRequest m.msgType m.event m.fromUserName
  else .defaultHandler route m.fromUserName m.msgId

/-- What is reported and done for a message. -/
def actOnMessage (hs : Handlers) (room : Nat) (head : Head) (route : Route) (m : Message) :
    List LogEntry × Action room :=
  match hs.message route with
  | some h => ([], h room head m)
  | none => ([standardEntry route m], .reply (.empty 200))

/-- What is reported and done for a rejection. -/
def actOnRejection (hs : Handlers) (room : Nat) (head : Head) (e : Rejection) :
    List LogEntry × Action room :=
  match hs.rejection with
  | some h => ([], h room head e)
  | none =>
      ([.invalidRequest head.method head.path e.status e.text],
        .reply (.plainText e.status e.reason))

end Handlers
end PushGate
