import PushGate.Authentication
import PushGate.Dispatcher.Basic

/-!
# Handling exchanges

An exchange is authenticated, its body is received, a message is lent from the pool and decoded
into, and the handler of its route is called; the message stays lent until the handler has ended,
however it ends.  The first stage that fails rejects the exchange: a message that has been lent goes
back first, then the handler of rejections is called.  An exchange whose body never ends is given
up; nothing has been lent by then.

`serve` handles one exchange, given how the exchanges are served that its handler opens; `handle`
ties the knot, with one level of nesting less at each turn.

**Results.**
* `handle_zero`, `handle_succ`: one level of nesting in terms of the next.
* `run_dispatch`: what a handler's step into another exchange does.
-/

namespace PushGate

/-- How exchanges are served: the pool is threaded through. -/
abbrev Service : Type :=
  Pool Message → Exchange → Record × Pool Message

/-- What comes of a handler's action. -/
structure Handled where
  answer : Answer
  /-- The exchanges that it had handled, in order. -/
  nested : List Record
  pool : Pool Message

namespace Action

variable {room : Nat}

/-- Carries an action out, with `service` for the exchanges that it opens. -/
def run (service : room ≠ 0 → Service) : Action room → Pool Message → Handled
  | .reply r, pool => ⟨.response r, [], pool⟩
  | .panic cause, pool => ⟨.panicked cause, [], pool⟩
  | .dispatch opens x next, pool =>
      let (record, pool) := service opens pool x
      let done := (next record.answer).run service pool
      ⟨done.answer, record :: done.nested, done.pool⟩

theorem run_dispatch (service : room ≠ 0 → Service) (opens : room ≠ 0) (x : Exchange)
    (next : Answer → Action room) (pool : Pool Message) :
    (Action.dispatch opens x next).run service pool =
      ⟨((next (service opens pool x).1.answer).run service (service opens pool x).2).answer,
        (service opens pool x).1 ::
          ((next (service opens pool x).1.answer).run service (service opens pool x).2).nested,
        ((next (service opens pool x).1.answer).run service (service opens pool x).2).pool⟩ :=
  rfl

end Action

namespace Dispatcher

section

variable (d : Dispatcher) (room : Nat) (service : room ≠ 0 → Service)

/-- Rejects an exchange. -/
def reject (pool : Pool Message) (head : Head) (log : List LogEntry) (e : Rejection) :
    Record × Pool Message :=
  let (entries, action) := d.handlers.actOnRejection room head e
  let done := action.run service pool
  (⟨head, done.answer, [⟨.rejection e, head, pool.stats, done.nested⟩], log ++ entries,
    done.pool.stats⟩, done.pool)

/-- Hands a message to the handler of its route; `slot` holds it and goes back to the pool at
the end. -/
def deliver (pool : Pool Message) (slot : Slot Message) (head : Head) (log : List LogEntry) :
    Record × Pool Message :=
  let m := slot.value
  let route := Route.ofMessage m
  let (entries, action) := d.handlers.actOnMessage room head route m
  let done := action.run service pool
  let final := done.pool.release slot
  (⟨head, done.answer, [⟨.message route m, head, pool.stats, done.nested⟩],
    log ++ .requestRouted route m.msgType m.event m.fromUserName :: entries, final.stats⟩, final)

/-- Decodes a body into a message of the pool. -/
def accept (pool : Pool Message) (head : Head) (log : List LogEntry) (body : Bytes) :
    Record × Pool Message :=
  let (slot, pool) := pool.acquire
  let outcome := Decoder.decode slot.value body
  let slot := { slot with value := outcome.message }
  match outcome.fault with
  | some e => d.reject room service (pool.release slot) head log (.message e)
  | none => d.deliver room service pool slot head log

/-- Handles one exchange. -/
def serve : Service := fun pool x =>
  let (admitted, log) := authenticate d.token x.head.query
  match admitted with
  | .error e => d.reject room service pool x.head log e
  | .ok () =>
      match Intake.receive d.maxBodyBytes x.body with
      | .pending => (⟨x.head, .cancelled, [], log, pool.stats⟩, pool)
      | .failed cause => d.reject room service pool x.head log (.body cause)
      | .whole body => d.accept room service pool x.head log body

end

/-- Handles an exchange, with at most `room` exchanges inside one another. -/
def handle (d : Dispatcher) : (room : Nat) → Service
  | 0 => d.serve 0 fun opens => absurd rfl opens
  | room + 1 => d.serve (room + 1) fun _ => d.handle room

/-- Handles exchanges one after the other. -/
def handleAll (d : Dispatcher) (room : Nat) (pool : Pool Message) :
    List Exchange → List Record × Pool Message
  | [] => ([], pool)
  | x :: xs =>
      let (record, pool) := d.handle room pool x
      let (records, pool) := d.handleAll room pool xs
      (record :: records, pool)

theorem handle_zero (d : Dispatcher) :
    d.handle 0 = d.serve 0 fun opens => absurd rfl opens := rfl

theorem handle_succ (d : Dispatcher) (room : Nat) :
    d.handle (room + 1) = d.serve (room + 1) fun _ => d.handle room := rfl

end Dispatcher
end PushGate
