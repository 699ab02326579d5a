import PushGate.Dispatcher.Handling

/-!
# The stages of an exchange

An exchange leaves the dispatcher by one of four doors: the query is refused, the body stalls, the
body cannot be received, or a whole body is handed on.  What happens behind a door is settled by one
equation each, so that later proofs speak of doors and not of the code that chooses among them.

**Results.**
* `handle_eq_serve`: handling is serving, with the exchanges inside served one level further down.
* `serve_of_refused`, `serve_of_stalled`, `serve_of_broken`, `serve_of_whole`: the four doors.
* `accept_of_fault`, `accept_of_message`: a whole body is no message, or it is one.
* `serve_head`: a record is filed under the head of its request, whatever the door.
-/

namespace PushGate
namespace Dispatcher

/-- How the exchanges are served that a handler opens. -/
def inner
    (d : Dispatcher)
    (room : Nat)
    (_ : room ≠ 0) :
    Service :=
  d.handle (room - 1)

section Doors

variable (d : Dispatcher)

theorem handle_eq_serve (room : Nat) :
    d.handle room = d.serve room (d.inner room) := by
  cases room with
  | zero =>
      rw [handle_zero]
      congr 1
      funext opens
      exact absurd rfl opens
  | succ room => rfl

variable {room : Nat} {service : room ≠ 0 → Service}
variable {pool : Pool Message} {x : Exchange}

theorem serve_of_refused
    {e : Rejection}
    (h : (authenticate d.token x.head.query).1 = .error e) :
    d.serve room service pool x =
      d.reject room service pool x.head
        (authenticate d.token x.head.query).2 e := by
  simp only [serve, h]

theorem serve_of_stalled
    (h : (authenticate d.token x.head.query).1 = .ok ())
    (hbody : Intake.receive d.maxBodyBytes x.body = .pending) :
    d.serve room service pool x =
      (⟨x.head, .cancelled, [],
        (authenticate d.token x.head.query).2, pool.stats⟩, pool) := by
  simp only [serve, h, hbody]

theorem serve_of_broken
    {cause : BodyError}
    (h : (authenticate d.token x.head.query).1 = .ok ())
    (hbody : Intake.receive d.maxBodyBytes x.body = .failed cause) :
    d.serve room service pool x =
      d.reject room service pool x.head
        (authenticate d.token x.head.query).2 (.body cause) := by
  simp only [serve, h, hbody]

theorem serve_of_whole
    {body : Bytes}
    (h : (authenticate d.token x.head.query).1 = .ok ())
    (hbody : Intake.receive d.maxBodyBytes x.body = .whole body) :
    d.serve room service pool x =
      d.accept room service pool x.head
        (authenticate d.token x.head.query).2 body := by
  simp only [serve, h, hbody]

variable {head : Head} {log : List LogEntry} {body : Bytes}

/-- A body that is no message: the message lent for it goes back before the rejection. -/
theorem accept_of_fault
    {e : Decoder.Error}
    (h : (Decoder.decode .blank body).fault = some e) :
    d.accept room service pool head log body =
      d.reject room service
        (pool.acquire.2.release
          { pool.acquire.1 with
            value := (Decoder.decode .blank body).message })
        head log (.message e) := by
  simp only [accept, Decoder.decode_eq pool.acquire.1.value, h]

/-- A body that is a message: the handler is given exactly what a blank message would hold. -/
theorem accept_of_message
    (h : (Decoder.decode .blank body).fault = none) :
    d.accept room service pool head log body =
      d.deliver room service pool.acquire.2
        { pool.acquire.1 with
          value := (Decoder.decode .blank body).message }
        head log := by
  simp only [accept, Decoder.decode_eq pool.acquire.1.value, h]

theorem accept_head :
    (d.accept room service pool head log body).1.head = head := by
  cases hfault : (Decoder.decode .blank body).fault with
  | some e =>
      rw [d.accept_of_fault hfault]
      rfl
  | none =>
      rw [d.accept_of_message hfault]
      rfl

/-- A record is filed under the head of its request. -/
theorem serve_head :
    (d.serve room service pool x).1.head = x.head := by
  cases hadmitted : (authenticate d.token x.head.query).1 with
  | error e =>
      rw [d.serve_of_refused hadmitted]
      rfl
  | ok _ =>
      cases hbody : Intake.receive d.maxBodyBytes x.body with
      | pending => rw [d.serve_of_stalled hadmitted hbody]
      | failed cause =>
          rw [d.serve_of_broken hadmitted hbody]
          rfl
      | whole body =>
          rw [d.serve_of_whole hadmitted hbody]
          exact d.accept_head

end Doors

end Dispatcher
end PushGate
