import PushGate.Proofs.Dispatcher.Stages

/-!
# Who is called

What is done on an occasion is written down here from the registry alone: a handler that is registered for
the occasion is given the head of the request and the message or the cause, and where none is registered
the standard answer is given.  The look-up of the dispatcher agrees with this, and a record shows the call.

**Results.**
* `does_message_iff`, `does_rejection_iff`: what the dispatcher looks up is what the registry says.
* `Handlers.Does.unique`: the registry says one thing only.
* `called_reject`, `called_deliver`: behind its two doors with a handler, the dispatcher calls it once.
-/

namespace PushGate
namespace Handlers

/-- What is done on an occasion, by what is registered for it. -/
inductive Does
    (hs : Handlers)
    (room : Nat)
    (head : Head) :
    Occasion → Action room → Prop
  | message
      {route : Route} {m : Message} {h : MessageHandler}
      (registered : hs.message route = some h) :
      Does hs room head (.message route m) (h room head m)
  | messageByDefault
      {route : Route} {m : Message}
      (unregistered : hs.message route = none) :
      Does hs room head (.message route m) (.reply (.empty 200))
  | rejection
      {e : Rejection} {h : RejectionHandler}
      (registered : hs.rejection = some h) :
      Does hs room head (.rejection e) (h room head e)
  | rejectionByDefault
      {e : Rejection}
      (unregistered : hs.rejection = none) :
      Does hs room head (.rejection e) (.reply (.plainText e.status e.reason))

section Registry

variable {hs : Handlers} {room : Nat} {head : Head} {action action' : Action room}

/-- What the dispatcher looks up for a message is what the registry says. -/
theorem does_message_iff
    {route : Route}
    {m : Message} :
    hs.Does room head (.message route m) action ↔
      (hs.actOnMessage room head route m).2 = action := by
  rw [actOnMessage]
  constructor
  · intro h
    cases h with
    | message registered => rw [registered]
    | messageByDefault unregistered => rw [unregistered]
  · rintro rfl
    cases hregistered : hs.message route with
    | some h => exact .message hregistered
    | none => exact .messageByDefault hregistered

/-- What the dispatcher looks up for a rejection is what the registry says. -/
theorem does_rejection_iff
    {e : Rejection} :
    hs.Does room head (.rejection e) action ↔
      (hs.actOnRejection room head e).2 = action := by
  rw [actOnRejection]
  constructor
  · intro h
    cases h with
    | rejection registered => rw [registered]
    | rejectionByDefault unregistered => rw [unregistered]
  · rintro rfl
    cases hregistered : hs.rejection with
    | some h => exact .rejection hregistered
    | none => exact .rejectionByDefault hregistered

/-- The registry says one thing only. -/
theorem Does.unique
    {occasion : Occasion}
    (h : hs.Does room head occasion action)
    (h' : hs.Does room head occasion action') :
    action = action' := by
  cases occasion with
  | message route m => exact (does_message_iff.1 h).symm.trans (does_message_iff.1 h')
  | rejection e => exact (does_rejection_iff.1 h).symm.trans (does_rejection_iff.1 h')

end Registry

end Handlers

namespace Dispatcher

/-- A record with one call: a handler is entered for an occasion, and what its action comes to from
there is the answer. -/
def CalledOnce
    (d : Dispatcher)
    (room : Nat)
    (head : Head)
    (occasion : Occasion)
    (action : Action room)
    (record : Record) : Prop :=
  ∃ entered : Pool Message,
    record.calls =
      [⟨occasion, head, entered.stats, (action.run (d.inner room) entered).nested⟩] ∧
    record.answer = (action.run (d.inner room) entered).answer

/-- A record with one call, of the handler that the registry has for the occasion, or of the standard
one where it has none. -/
def Called
    (d : Dispatcher)
    (room : Nat)
    (head : Head)
    (occasion : Occasion)
    (record : Record) : Prop :=
  ∃ action, d.handlers.Does room head occasion action ∧
    d.CalledOnce room head occasion action record

section Calls

variable {d : Dispatcher} {room : Nat} {head : Head} {occasion : Occasion} {record : Record}

/-- The call is that of the handler that is found in the registry. -/
theorem Called.calledOnce
    {action : Action room}
    (h : d.Called room head occasion record)
    (does : d.handlers.Does room head occasion action) :
    d.CalledOnce room head occasion action record := by
  obtain ⟨action', does', called⟩ := h
  rwa [does.unique does']

theorem Called.occasion_eq
    (h : d.Called room head occasion record) :
    record.calls.map Call.occasion = [occasion] := by
  obtain ⟨action, -, entered, hcalls, -⟩ := h
  rw [hcalls]
  rfl

variable (pool : Pool Message) (log : List LogEntry)

theorem called_reject
    (e : Rejection) :
    d.Called room head (.rejection e) (d.reject room (d.inner room) pool head log e).1 :=
  ⟨_, Handlers.does_rejection_iff.2 rfl, pool, rfl, rfl⟩

theorem called_deliver
    {slot : Slot Message}
    {m : Message}
    (hvalue : slot.value = m) :
    d.Called room head (.message (Route.ofMessage m) m)
      (d.deliver room (d.inner room) pool slot head log).1 := by
  subst hvalue
  exact ⟨_, Handlers.does_message_iff.2 rfl, pool, rfl, rfl⟩

end Calls

end Dispatcher
end PushGate
