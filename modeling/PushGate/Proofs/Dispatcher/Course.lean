import PushGate.Proofs.Authentication.Verdict

/-!
# The course of an exchange

An exchange is cancelled, delivered or rejected.  Which of these it is, with which message or for
which cause, is settled by its query and its body: by the verdict on the query, by how many bytes
come and how they end, and by what a blank message holds after they are decoded.  Handlers and the
pool have no part in it.

The record of an exchange shows its course: a cancelled exchange calls no handler, any other calls
one, and the answer is what that handler comes to.

**Results.**
* `takes_exists`: every exchange takes a course.
* `shows_of_takes`: the record shows the course that is taken.
* `Shows.unique`: it shows no other.
* `Takes.unique`, `Takes.congr`: the course that is taken is one, and no handler has a part in it.
* `ofMessage_eq_unknown_iff`: what takes the route `unknown`.
-/

namespace PushGate

/-- What an exchange comes to. -/
inductive Course where
  | cancelled
  | delivered (m : Message)
  | rejected (e : Rejection)
deriving DecidableEq

/-- What handlers are called for in a course. -/
def Course.occasions : Course → List Occasion
  | .cancelled => []
  | .delivered m => [.message (Route.ofMessage m) m]
  | .rejected e => [.rejection e]

theorem Course.occasions_injective
    {c c' : Course}
    (h : c.occasions = c'.occasions) :
    c = c' := by
  cases c <;> cases c' <;> simp_all [occasions]

/-- A message whose type is not known, or that reports an event that is not known. -/
def Message.Unrecognized (m : Message) : Prop :=
  (∀ k ∈ Kind.known, k.name ≠ m.msgType) ∨
    (m.msgType = Kind.event.name ∧ ∀ k ∈ EventKind.known, k.name? ≠ some m.event)

namespace Dispatcher

/-- The course that an exchange takes, by the first stage that fails. -/
inductive Takes
    (d : Dispatcher)
    (x : Exchange) :
    Course → Prop
  | refused
      {e : Rejection}
      (verdict : Verdict d.token x.head.query (.error e)) :
      Takes d x (.rejected e)
  | tooLong
      (authentic : Authentic d.token x.head.query)
      (excess : d.maxBodyBytes < (deliveredBytes x.body).length) :
      Takes d x (.rejected (.body .tooLong))
  | broken
      {cause : String}
      (authentic : Authentic d.token x.head.query)
      (within : (deliveredBytes x.body).length ≤ d.maxBodyBytes)
      (ending : terminator x.body = .failure cause) :
      Takes d x (.rejected (.body (.stream cause)))
  | stalled
      (authentic : Authentic d.token x.head.query)
      (within : (deliveredBytes x.body).length ≤ d.maxBodyBytes)
      (ending : terminator x.body = .stalled) :
      Takes d x .cancelled
  | noMessage
      {e : Decoder.Error}
      (authentic : Authentic d.token x.head.query)
      (within : (deliveredBytes x.body).length ≤ d.maxBodyBytes)
      (ending : terminator x.body = .complete)
      (fault : (Decoder.decode .blank (deliveredBytes x.body)).fault = some e) :
      Takes d x (.rejected (.message e))
  | message
      (authentic : Authentic d.token x.head.query)
      (within : (deliveredBytes x.body).length ≤ d.maxBodyBytes)
      (ending : terminator x.body = .complete)
      (sound : (Decoder.decode .blank (deliveredBytes x.body)).fault = none) :
      Takes d x (.delivered (Decoder.decode .blank (deliveredBytes x.body)).message)

/-- The course that a record shows. -/
inductive Shows
    (d : Dispatcher)
    (room : Nat)
    (head : Head)
    (record : Record) :
    Course → Prop
  | cancelled
      (calls : record.calls = [])
      (answer : record.answer = .cancelled) :
      Shows d room head record .cancelled
  | delivered
      {m : Message}
      (called : d.Called room head (.message (Route.ofMessage m) m) record) :
      Shows d room head record (.delivered m)
  | rejected
      {e : Rejection}
      (called : d.Called room head (.rejection e) record) :
      Shows d room head record (.rejected e)

section Receiving

variable {limit : Nat} {chunks : List Chunk}

theorem receive_of_excess
    (h : limit < (deliveredBytes chunks).length) :
    Intake.receive limit chunks = .failed .tooLong := by
  rw [Intake.receive_eq]
  exact if_pos h

theorem receive_of_within
    (h : (deliveredBytes chunks).length ≤ limit) :
    Intake.receive limit chunks =
      match terminator chunks with
      | .complete => .whole (deliveredBytes chunks)
      | .failure cause => .failed (.stream cause)
      | .stalled => .pending := by
  rw [Intake.receive_eq]
  exact if_neg (Nat.not_lt.2 h)

theorem receive_of_failure
    {cause : String}
    (h : (deliveredBytes chunks).length ≤ limit)
    (hending : terminator chunks = .failure cause) :
    Intake.receive limit chunks = .failed (.stream cause) := by
  rw [receive_of_within h, hending]

theorem receive_of_stalled
    (h : (deliveredBytes chunks).length ≤ limit)
    (hending : terminator chunks = .stalled) :
    Intake.receive limit chunks = .pending := by
  rw [receive_of_within h, hending]

theorem receive_of_complete
    (h : (deliveredBytes chunks).length ≤ limit)
    (hending : terminator chunks = .complete) :
    Intake.receive limit chunks = .whole (deliveredBytes chunks) := by
  rw [receive_of_within h, hending]

end Receiving

section Courses

variable {d : Dispatcher} {room : Nat} {pool : Pool Message} {x : Exchange} {course : Course}

/-- Every exchange takes a course. -/
theorem takes_exists
    (d : Dispatcher)
    (x : Exchange) :
    ∃ course, d.Takes x course := by
  obtain ⟨v, hverdict⟩ := verdict_exists d.token x.head.query
  cases v with
  | error e => exact ⟨_, .refused hverdict⟩
  | ok _ =>
      have hauthentic : Authentic d.token x.head.query :=
        authentic_iff.2 (authenticate_of_verdict hverdict)
      rcases Nat.lt_or_ge d.maxBodyBytes (deliveredBytes x.body).length with hexcess | hwithin
      · exact ⟨_, .tooLong hauthentic hexcess⟩
      cases hending : terminator x.body with
      | failure cause => exact ⟨_, .broken hauthentic hwithin hending⟩
      | stalled => exact ⟨_, .stalled hauthentic hwithin hending⟩
      | complete =>
          cases hfault : (Decoder.decode .blank (deliveredBytes x.body)).fault with
          | some e => exact ⟨_, .noMessage hauthentic hwithin hending hfault⟩
          | none => exact ⟨_, .message hauthentic hwithin hending hfault⟩

/-- The record of an exchange shows the course that the exchange takes. -/
theorem shows_of_takes
    (h : d.Takes x course) :
    d.Shows room x.head (d.handle room pool x).1 course := by
  rw [handle_eq_serve]
  cases h with
  | refused verdict =>
      rw [d.serve_of_refused (authenticate_of_verdict verdict)]
      exact .rejected (called_reject _ _ _)
  | tooLong authentic excess =>
      rw [d.serve_of_broken (authentic_iff.1 authentic) (receive_of_excess excess)]
      exact .rejected (called_reject _ _ _)
  | broken authentic within ending =>
      rw [d.serve_of_broken (authentic_iff.1 authentic) (receive_of_failure within ending)]
      exact .rejected (called_reject _ _ _)
  | stalled authentic within ending =>
      rw [d.serve_of_stalled (authentic_iff.1 authentic) (receive_of_stalled within ending)]
      exact .cancelled rfl rfl
  | noMessage authentic within ending fault =>
      rw [d.serve_of_whole (authentic_iff.1 authentic) (receive_of_complete within ending)]
      rw [d.accept_of_fault fault]
      exact .rejected (called_reject _ _ _)
  | message authentic within ending sound =>
      rw [d.serve_of_whole (authentic_iff.1 authentic) (receive_of_complete within ending)]
      rw [d.accept_of_message sound]
      exact .delivered (called_deliver _ _ rfl)

theorem Shows.occasions
    {head : Head}
    {record : Record}
    (h : d.Shows room head record course) :
    record.calls.map Call.occasion = course.occasions := by
  cases h with
  | cancelled calls => rw [calls]; rfl
  | delivered called | rejected called => exact called.occasion_eq

/-- A record shows one course only. -/
theorem Shows.unique
    {head : Head}
    {record : Record}
    {other : Course}
    (h : d.Shows room head record course)
    (h' : d.Shows room head record other) :
    course = other :=
  Course.occasions_injective (h.occasions.symm.trans h'.occasions)

/-- An exchange takes one course only. -/
theorem Takes.unique
    {other : Course}
    (h : d.Takes x course)
    (h' : d.Takes x other) :
    course = other := by
  have hshows : d.Shows 0 x.head (d.handle 0 d.initialPool x).1 course := shows_of_takes h
  exact hshows.unique (shows_of_takes h')

/-- Only the token and the limit on bodies have a part in it. -/
theorem Takes.congr
    {d' : Dispatcher}
    (htoken : d'.token = d.token)
    (hlimit : d'.maxBodyBytes = d.maxBodyBytes)
    (h : d.Takes x course) :
    d'.Takes x course := by
  cases h with
  | refused verdict => exact .refused (htoken ▸ verdict)
  | tooLong authentic excess => exact .tooLong (htoken ▸ authentic) (hlimit ▸ excess)
  | broken authentic within ending => exact .broken (htoken ▸ authentic) (hlimit ▸ within) ending
  | stalled authentic within ending => exact .stalled (htoken ▸ authentic) (hlimit ▸ within) ending
  | noMessage authentic within ending fault =>
      exact .noMessage (htoken ▸ authentic) (hlimit ▸ within) ending fault
  | message authentic within ending sound =>
      exact .message (htoken ▸ authentic) (hlimit ▸ within) ending sound

end Courses

section Calls

/-- What is done of an exchange that is delivered: the handler of the message's route is called. -/
theorem called_of_delivered
    (d : Dispatcher)
    (room : Nat)
    (pool : Pool Message)
    {x : Exchange}
    {m : Message}
    (h : d.Takes x (.delivered m)) :
    d.Called room x.head (.message (Route.ofMessage m) m) (d.handle room pool x).1 := by
  have hshows : d.Shows room x.head (d.handle room pool x).1 (.delivered m) := shows_of_takes h
  cases hshows with
  | delivered called => exact called

/-- What is done of an exchange that is rejected: the handler of rejections is called. -/
theorem called_of_rejected
    (d : Dispatcher)
    (room : Nat)
    (pool : Pool Message)
    {x : Exchange}
    {e : Rejection}
    (h : d.Takes x (.rejected e)) :
    d.Called room x.head (.rejection e) (d.handle room pool x).1 := by
  have hshows : d.Shows room x.head (d.handle room pool x).1 (.rejected e) := shows_of_takes h
  cases hshows with
  | rejected called => exact called

end Calls

end Dispatcher

section Unknown

theorem Kind.ofText_eq_unrecognized_iff
    {s : String} :
    Kind.ofText s = .unrecognized ↔ ∀ k ∈ Kind.known, k.name ≠ s := by
  constructor
  · rintro h k hk rfl
    rw [Kind.ofText_name] at h
    subst h
    exact absurd hk (by decide)
  · intro h
    have hfind : Kind.known.find? (fun k => k.name == s) = none := by
      rw [List.find?_eq_none]
      intro k hk
      rw [beq_iff_eq]
      exact h k hk
    rw [Kind.ofText, hfind]
    rfl

theorem EventKind.ofText_eq_unrecognized_iff
    {s : String} :
    EventKind.ofText s = .unrecognized ↔ ∀ k ∈ EventKind.known, k.name? ≠ some s := by
  constructor
  · intro h k hk hname
    rw [EventKind.ofText_name hname] at h
    subst h
    cases hname
  · intro h
    have hfind : EventKind.known.find? (fun k => k.name? == some s) = none := by
      rw [List.find?_eq_none]
      intro k hk
      rw [beq_iff_eq]
      exact h k hk
    rw [EventKind.ofText, hfind]
    rfl

theorem ofEvent_eq_unknown_iff
    {m : Message} :
    Route.ofEvent m = .unknown ↔ m.eventKind = .unrecognized := by
  rw [Route.ofEvent]
  cases m.eventKind with
  | subscribe => by_cases hticket : m.ticket = "" <;> simp [hticket]
  | _ => simp

/-- What is not recognised takes the route `unknown`, and nothing else does. -/
theorem ofMessage_eq_unknown_iff
    {m : Message} :
    Route.ofMessage m = .unknown ↔ m.Unrecognized := by
  have hevent : m.msgType = Kind.event.name ↔ m.kind = .event :=
    (Kind.ofText_eq_iff (by decide)).symm
  rw [Message.Unrecognized, ← Kind.ofText_eq_unrecognized_iff,
    ← EventKind.ofText_eq_unrecognized_iff, hevent]
  change _ ↔ m.kind = .unrecognized ∨ (m.kind = .event ∧ m.eventKind = .unrecognized)
  rw [Route.ofMessage]
  cases m.kind with
  | voice => by_cases hspeech : m.recognition = "" <;> simp [hspeech]
  | event => simp [ofEvent_eq_unknown_iff]
  | _ => simp

end Unknown

namespace Dispatcher

/-- **One handler, the right one.**  An exchange takes exactly one course, and its record shows it:
no call if it is cancelled, else one call, for the message that was decoded or for the cause of the
rejection, of the handler that is registered for it or of the standard one, and what that handler comes
to is the answer.  A message that is not recognised is delivered like any other, to the handler of the
unknown. -/
theorem handle_course
    (d : Dispatcher)
    (room : Nat)
    (pool : Pool Message)
    (x : Exchange) :
    (∃! course, d.Takes x course) ∧
    (∀ course, d.Takes x course →
      d.Shows room x.head (d.handle room pool x).1 course) ∧
    (∀ m : Message, d.Takes x (.delivered m) → m.Unrecognized →
      d.Called room x.head (.message .unknown m) (d.handle room pool x).1) := by
  refine ⟨?_, fun course h => shows_of_takes h, ?_⟩
  · obtain ⟨course, hcourse⟩ := d.takes_exists x
    exact ⟨course, hcourse, fun other hother => hother.unique hcourse⟩
  · intro m hm hunrecognized
    have hcalled := d.called_of_delivered room pool hm
    rwa [ofMessage_eq_unknown_iff.2 hunrecognized] at hcalled

end Dispatcher
end PushGate
