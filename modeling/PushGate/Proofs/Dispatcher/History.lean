import PushGate.Proofs.Dispatcher.Stages

/-!
# Histories leave no trace

The values of a pool are used again and again, so what one exchange leaves in a message might show
in a later one.  It does not: apart from the counters of the pool, the record of an exchange (its
answer, the handlers called with all that they were given, and what was reported, for the exchanges
inside it too) is the same whatever has been handled before, however that ended.

A record is compared without its counters.  One level of nesting carries the property to the next:
if the exchanges that a handler opens ignore the pool, the handler gets the same answers from them
and goes on in the same way.

**Results.**
* `serve_ignoresPool`: what one level of nesting keeps.
* `handle_ignoresPool`: an exchange ignores the pool that it meets.
-/

namespace PushGate

mutual

/-- A record with the counters of the pool struck out, at every depth. -/
def Record.withoutCounters : Record → Record
  | ⟨head, answer, calls, log, _⟩ =>
      ⟨head, answer, callsWithoutCounters calls, log, ⟨0, 0, 0⟩⟩

def callsWithoutCounters : List (Call Record) → List (Call Record)
  | [] => []
  | ⟨occasion, head, _, nested⟩ :: calls =>
      ⟨occasion, head, ⟨0, 0, 0⟩, recordsWithoutCounters nested⟩ ::
        callsWithoutCounters calls

def recordsWithoutCounters : List Record → List Record
  | [] => []
  | record :: records =>
      record.withoutCounters :: recordsWithoutCounters records

end

theorem Record.answer_withoutCounters (r : Record) :
    r.withoutCounters.answer = r.answer := by
  cases r
  simp only [withoutCounters]

theorem answer_eq_of_withoutCounters_eq
    {r s : Record}
    (h : r.withoutCounters = s.withoutCounters) :
    r.answer = s.answer := by
  rw [← r.answer_withoutCounters, h, s.answer_withoutCounters]

/-- The records of a service do not depend on the pool, counters apart. -/
def Service.IgnoresPool (service : Service) : Prop :=
  ∀ (p q : Pool Message) (x : Exchange),
    (service p x).1.withoutCounters = (service q x).1.withoutCounters

/-- Equal in all that is seen of a handler's work: its answer and what happened inside. -/
def Handled.SameApartFromCounters (s t : Handled) : Prop :=
  s.answer = t.answer ∧
    recordsWithoutCounters s.nested = recordsWithoutCounters t.nested

/-- What an action comes to does not depend on the pool, if that holds of what it opens. -/
theorem Action.run_ignoresPool
    {room : Nat}
    {service : room ≠ 0 → Service}
    (hservice : ∀ opens, (service opens).IgnoresPool)
    (action : Action room)
    (p q : Pool Message) :
    (action.run service p).SameApartFromCounters (action.run service q) := by
  induction action generalizing p q with
  | reply r => exact ⟨rfl, rfl⟩
  | panic cause => exact ⟨rfl, rfl⟩
  | dispatch opens x next ih =>
      have hrecord := hservice opens p q x
      have hanswer := answer_eq_of_withoutCounters_eq hrecord
      rw [run_dispatch, run_dispatch, hanswer]
      have hnext :=
        ih (service opens q x).1.answer (service opens p x).2 (service opens q x).2
      constructor
      · exact hnext.1
      · simp only [recordsWithoutCounters, hrecord, hnext.2]

namespace Dispatcher

section Level

variable (d : Dispatcher) {room : Nat} {service : room ≠ 0 → Service}
variable (hservice : ∀ opens, (service opens).IgnoresPool)
include hservice

theorem reject_ignoresPool
    (p q : Pool Message)
    (head : Head)
    (log : List LogEntry)
    (e : Rejection) :
    (d.reject room service p head log e).1.withoutCounters =
      (d.reject room service q head log e).1.withoutCounters := by
  obtain ⟨hanswer, hnested⟩ :=
    (d.handlers.actOnRejection room head e).2.run_ignoresPool hservice p q
  simp only [reject, Record.withoutCounters, callsWithoutCounters, hanswer, hnested]

theorem deliver_ignoresPool
    (p q : Pool Message)
    {s t : Slot Message}
    (hvalue : s.value = t.value)
    (head : Head)
    (log : List LogEntry) :
    (d.deliver room service p s head log).1.withoutCounters =
      (d.deliver room service q t head log).1.withoutCounters := by
  obtain ⟨hanswer, hnested⟩ :=
    (d.handlers.actOnMessage room head
      (Route.ofMessage t.value) t.value).2.run_ignoresPool hservice p q
  simp only [deliver, Record.withoutCounters, callsWithoutCounters, hvalue, hanswer, hnested]

theorem accept_ignoresPool
    (p q : Pool Message)
    (head : Head)
    (log : List LogEntry)
    (body : Bytes) :
    (d.accept room service p head log body).1.withoutCounters =
      (d.accept room service q head log body).1.withoutCounters := by
  cases hfault : (Decoder.decode .blank body).fault with
  | some e =>
      rw [d.accept_of_fault hfault, d.accept_of_fault hfault]
      exact d.reject_ignoresPool hservice _ _ head log _
  | none =>
      rw [d.accept_of_message hfault, d.accept_of_message hfault]
      exact d.deliver_ignoresPool hservice _ _ rfl head log

/-- One level of nesting: an exchange ignores the pool if those inside it do. -/
theorem serve_ignoresPool : (d.serve room service).IgnoresPool := by
  intro p q x
  cases hadmitted : (authenticate d.token x.head.query).1 with
  | error e =>
      rw [d.serve_of_refused hadmitted, d.serve_of_refused hadmitted]
      exact d.reject_ignoresPool hservice p q _ _ e
  | ok _ =>
      cases hbody : Intake.receive d.maxBodyBytes x.body with
      | pending =>
          rw [d.serve_of_stalled hadmitted hbody, d.serve_of_stalled hadmitted hbody]
          simp only [Record.withoutCounters]
      | failed cause =>
          rw [d.serve_of_broken hadmitted hbody, d.serve_of_broken hadmitted hbody]
          exact d.reject_ignoresPool hservice p q _ _ _
      | whole body =>
          rw [d.serve_of_whole hadmitted hbody, d.serve_of_whole hadmitted hbody]
          exact d.accept_ignoresPool hservice p q _ _ body

end Level

/-- An exchange ignores the pool that it meets, however deep its exchanges are nested. -/
theorem handle_ignoresPool (d : Dispatcher) (room : Nat) :
    (d.handle room).IgnoresPool := by
  induction room with
  | zero =>
      rw [handle_zero]
      exact d.serve_ignoresPool fun opens => absurd rfl opens
  | succ room ih =>
      rw [handle_succ]
      exact d.serve_ignoresPool fun _ => ih

/-- **History independence.**  Counters apart, an exchange after any history leaves the record that
it leaves on a dispatcher just built. -/
theorem handle_after_history
    (d : Dispatcher)
    (room : Nat)
    (history : List Exchange)
    (x : Exchange) :
    (d.handle room (d.handleAll room d.initialPool history).2 x).1.withoutCounters =
      (d.handle room d.initialPool x).1.withoutCounters :=
  d.handle_ignoresPool room _ _ x

end Dispatcher
end PushGate
