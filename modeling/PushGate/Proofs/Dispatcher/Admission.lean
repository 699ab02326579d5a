import PushGate.Proofs.Dispatcher.Calls

/-!
# Admission comes before the body

A delivery that its query does not authenticate is refused before a byte of its body is read and
before a message is lent for it.  So its body cannot be told from any other body, by the answer, by
what the handler of rejections is given, by the log or by the pool.

**Results.**
* `isAboutQuery_of_authenticate`: authentication refuses for one of three causes.
* `reject_spec`: what a rejection leaves behind, whatever the handler does.
-/

namespace PushGate

/-- The causes that the query alone gives. -/
def Rejection.isAboutQuery : Rejection → Bool
  | .query => true
  | .missing _ => true
  | .signatureMismatch => true
  | .body _ => false
  | .message _ => false

theorem require_eq_error
    {p : Parameter}
    {value : Option String}
    {e : Rejection}
    (h : require p value = .error e) :
    e = .missing p := by
  unfold require at h
  split at h
  · cases h
    rfl
  · split at h
    · cases h
      rfl
    · cases h

theorem bind_eq_error
    {ε α β : Type}
    {a : Except ε α}
    {f : α → Except ε β}
    {e : ε}
    (h : a >>= f = .error e) :
    a = .error e ∨ ∃ value, f value = .error e := by
  cases a with
  | error e' => exact Or.inl (congrArg Except.error (Except.error.inj h))
  | ok value => exact Or.inr ⟨value, h⟩

theorem isAboutQuery_of_presented
    {query : Option Bytes}
    {e : Rejection}
    (h : presented query = .error e) :
    e.isAboutQuery = true := by
  rw [presented] at h
  split at h
  · cases h
    rfl
  · rcases bind_eq_error h with hs | ⟨signature, h⟩
    · rw [require_eq_error hs]
      rfl
    rcases bind_eq_error h with ht | ⟨timestamp, h⟩
    · rw [require_eq_error ht]
      rfl
    rcases bind_eq_error h with hn | ⟨nonce, h⟩
    · rw [require_eq_error hn]
      rfl
    · cases h

/-- Authentication refuses for a cause that the query alone gives. -/
theorem isAboutQuery_of_authenticate
    {token : String}
    {query : Option Bytes}
    {e : Rejection}
    (h : (authenticate token query).1 = .error e) :
    e.isAboutQuery = true := by
  rw [authenticate] at h
  cases hp : presented query with
  | error e' =>
      simp only [hp, Except.error.injEq] at h
      rw [← h]
      exact isAboutQuery_of_presented hp
  | ok texts =>
      obtain ⟨signature, timestamp, nonce⟩ := texts
      rw [hp] at h
      simp only [checkSignature] at h
      by_cases hc : Signature.check signature timestamp nonce token = true
      · simp [hc] at h
      · simp only [hc, Bool.false_eq_true, if_false, Except.error.injEq] at h
        rw [← h]
        rfl

/-- An action that opens no exchange leaves the pool as it is. -/
theorem Action.run_pool_of_nested_eq_nil
    {room : Nat}
    {service : room ≠ 0 → Service}
    {action : Action room}
    {pool : Pool Message}
    (h : (action.run service pool).nested = []) :
    (action.run service pool).pool = pool := by
  cases action with
  | reply r => rfl
  | panic cause => rfl
  | dispatch opens x next =>
      rw [run_dispatch] at h
      cases h

namespace Dispatcher

/-- The record of a rejection: the handler of rejections is called once, with the pool as it is, and
its answer is the answer.  Where it opens no exchange, it leaves the pool as it is. -/
structure RejectedWith
    (d : Dispatcher)
    (room : Nat)
    (pool : Pool Message)
    (head : Head)
    (e : Rejection)
    (record : Record)
    (final : Pool Message) : Prop where
  called :
    ∃ action, d.handlers.Does room head (.rejection e) action ∧
      record.calls =
        [⟨.rejection e, head, pool.stats, (action.run (d.inner room) pool).nested⟩] ∧
      record.answer = (action.run (d.inner room) pool).answer
  pool_of_quiet :
    (∀ call ∈ record.calls, call.nested = []) →
      record.pool = pool.stats ∧ final = pool

theorem reject_spec
    (d : Dispatcher)
    (room : Nat)
    (pool : Pool Message)
    (head : Head)
    (log : List LogEntry)
    (e : Rejection) :
    d.RejectedWith room pool head e
      (d.reject room (d.inner room) pool head log e).1
      (d.reject room (d.inner room) pool head log e).2 := by
  refine ⟨⟨_, Handlers.does_rejection_iff.2 rfl, rfl, rfl⟩, ?_⟩
  intro hquiet
  have hnested :
      ((d.handlers.actOnRejection room head e).2.run (d.inner room) pool).nested = [] :=
    hquiet _ (List.mem_singleton.2 rfl)
  have hpool := Action.run_pool_of_nested_eq_nil hnested
  constructor
  · exact congrArg Pool.stats hpool
  · exact hpool

/-- **Admission before the body.**  Where the query does not authenticate, no two bodies can be told
apart, and the exchange is rejected for a cause that the query gives. -/
theorem handle_unauthenticated
    (d : Dispatcher)
    (room : Nat)
    (pool : Pool Message)
    (head : Head)
    (h : (authenticate d.token head.query).1 ≠ .ok ()) :
    (∀ body body' : List Chunk,
      d.handle room pool ⟨head, body⟩ = d.handle room pool ⟨head, body'⟩) ∧
    ∃ e, (authenticate d.token head.query).1 = .error e ∧
      e.isAboutQuery = true ∧
      ∀ body : List Chunk,
        d.RejectedWith room pool head e
          (d.handle room pool ⟨head, body⟩).1
          (d.handle room pool ⟨head, body⟩).2 := by
  cases hadmitted : (authenticate d.token head.query).1 with
  | ok _ => exact absurd hadmitted h
  | error e =>
      have hhandle : ∀ body : List Chunk,
          d.handle room pool ⟨head, body⟩ =
            d.reject room (d.inner room) pool head (authenticate d.token head.query).2 e := by
        intro body
        rw [handle_eq_serve]
        exact d.serve_of_refused hadmitted
      refine ⟨?_, e, rfl, isAboutQuery_of_authenticate hadmitted, ?_⟩
      · intro body body'
        rw [hhandle body, hhandle body']
      · intro body
        rw [hhandle body]
        exact d.reject_spec room pool head _ e

/-- A signature of three characters is refused, and a body that stalls cannot then be told from one
whose connection fails. -/
theorem handle_unauthenticated_short_signature :
    let d : Dispatcher := ⟨"mytoken", 16, 1, {}, by decide, by decide⟩
    let head : Head :=
      ⟨"POST", "/wechat", some (Utf8.ofString "signature=abc&timestamp=14&nonce=9")⟩
    (authenticate d.token head.query).1 ≠ .ok () ∧
    d.handle 2 d.initialPool ⟨head, [.stalled]⟩ =
      d.handle 2 d.initialPool ⟨head, [.data [0x3C], .failure "peer went away"]⟩ ∧
    ∃ e, e.isAboutQuery = true ∧
      d.RejectedWith 2 d.initialPool head e
        (d.handle 2 d.initialPool ⟨head, [.stalled]⟩).1
        (d.handle 2 d.initialPool ⟨head, [.stalled]⟩).2 := by
  intro d head
  have hparameters : Query.parametersOf head.query =
      [("signature", "abc"), ("timestamp", "14"), ("nonce", "9")] := by
    decide +kernel
  have hpresented : presented head.query = .ok ("abc", "14", "9") := by
    rw [presented, hparameters]
    rfl
  have hrefused : (authenticate d.token head.query).1 ≠ .ok () := by
    intro hok
    obtain ⟨signature, timestamp, nonce, hp, hsignature⟩ := authenticate_eq_ok_iff.1 hok
    rw [hpresented] at hp
    cases hp
    have hlength := congrArg String.length hsignature
    rw [Signature.length_compute] at hlength
    exact absurd hlength (by decide)
  obtain ⟨hsame, e, -, hquery, hrejected⟩ :=
    handle_unauthenticated d 2 d.initialPool head hrefused
  exact ⟨hrefused, hsame _ _, e, hquery, hrejected _⟩

end Dispatcher
end PushGate
