import PushGate.Proofs.Dispatcher.Course

/-!
# Bodies in pieces

The connection cuts a body into chunks as it likes, and the limit is checked chunk by chunk.  Neither
shows: all that an exchange learns of its body is which bytes come before the end of the data and how
the data ends, and more bytes than the limit are refused, however they end.

**Results.**
* `takes_ofBody`: the course of an authentic exchange, as a function of the limit, the bytes and
  their end.
* `handle_congr`: the same bytes with the same end are handled in the same way.
* `handle_chunks`: both, for all bodies behind an authentic head.
-/

namespace PushGate

/-- What a message that has been decoded comes to. -/
def Course.ofOutcome (o : Decoder.Outcome) : Course :=
  match o.fault with
  | some e => .rejected (.message e)
  | none => .delivered o.message

/-- What a body comes to, by the limit, the bytes that come, and how they end. -/
def Course.ofBody (limit : Nat) (bytes : Bytes) (ending : Terminator) : Course :=
  if limit < bytes.length then .rejected (.body .tooLong)
  else
    match ending with
    | .complete => .ofOutcome (Decoder.decode .blank bytes)
    | .failure cause => .rejected (.body (.stream cause))
    | .stalled => .cancelled

namespace Dispatcher

/-- The course of an authentic exchange is that of its body. -/
theorem takes_ofBody
    {d : Dispatcher}
    {x : Exchange}
    (authentic : Authentic d.token x.head.query) :
    d.Takes x (.ofBody d.maxBodyBytes (deliveredBytes x.body) (terminator x.body)) := by
  unfold Course.ofBody
  rcases Nat.lt_or_ge d.maxBodyBytes (deliveredBytes x.body).length with excess | within
  · rw [if_pos excess]
    exact .tooLong authentic excess
  rw [if_neg (Nat.not_lt.2 within)]
  cases ending : terminator x.body with
  | failure cause => exact .broken authentic within ending
  | stalled => exact .stalled authentic within ending
  | complete =>
      simp only [Course.ofOutcome]
      cases fault : (Decoder.decode .blank (deliveredBytes x.body)).fault with
      | some e => exact .noMessage authentic within ending fault
      | none => exact .message authentic within ending fault

/-- The same bytes with the same end are handled in the same way. -/
theorem handle_congr
    (d : Dispatcher)
    (room : Nat)
    (pool : Pool Message)
    (head : Head)
    {body body' : List Chunk}
    (hbytes : deliveredBytes body = deliveredBytes body')
    (hending : terminator body = terminator body') :
    d.handle room pool ⟨head, body⟩ = d.handle room pool ⟨head, body'⟩ := by
  have hreceive : Intake.receive d.maxBodyBytes body = Intake.receive d.maxBodyBytes body' :=
    Intake.receive_congr hbytes hending
  simp only [handle_eq_serve, serve, hreceive]

/-- **Bodies in pieces.**  Behind an authentic head, how a body is cut into chunks shows nowhere: not
in the answer, the calls, the log or the pool.  The exchange takes the course of the bytes and their
end: more bytes than the limit are refused, whatever ends them; otherwise a failure is refused with its
cause, what stalls is cancelled, and what is complete is decoded. -/
theorem handle_chunks
    (d : Dispatcher)
    (room : Nat)
    (pool : Pool Message)
    (head : Head)
    (authentic : Authentic d.token head.query) :
    (∀ body body' : List Chunk,
      deliveredBytes body = deliveredBytes body' →
      terminator body = terminator body' →
      d.handle room pool ⟨head, body⟩ = d.handle room pool ⟨head, body'⟩) ∧
    ∀ body : List Chunk,
      d.Shows room head (d.handle room pool ⟨head, body⟩).1
        (.ofBody d.maxBodyBytes (deliveredBytes body) (terminator body)) := by
  constructor
  · intro body body' hbytes hending
    exact d.handle_congr room pool head hbytes hending
  · intro body
    exact shows_of_takes (x := ⟨head, body⟩) (takes_ofBody authentic)

/-- A body of exactly the limit is accepted in one piece or in four, and one byte more is too much even
where the connection fails after it. -/
theorem handle_chunks_limit :
    let query := some (Utf8.ofString
      "signature=a0cb86810386f1333adc43d062861b27b2fe0a64&timestamp=aba&nonce=c")
    let d : Dispatcher := ⟨"ab", 6, 1, {}, by decide, by decide⟩
    let head : Head := ⟨"POST", "/", query⟩
    let pieces : List Chunk :=
      [.data [], .data (Utf8.ofString "<x"), .data (Utf8.ofString "ml/"), .data (Utf8.ofString ">")]
    let excess : List Chunk :=
      [.data (Utf8.ofString "<xml/>"), .data (Utf8.ofString " "), .failure "broken pipe"]
    Authentic d.token head.query ∧
    d.handle 0 d.initialPool ⟨head, pieces⟩ =
      d.handle 0 d.initialPool ⟨head, [.data (Utf8.ofString "<xml/>")]⟩ ∧
    d.Shows 0 head (d.handle 0 d.initialPool ⟨head, pieces⟩).1 (.delivered .blank) ∧
    d.Shows 0 head (d.handle 0 d.initialPool ⟨head, excess⟩).1 (.rejected (.body .tooLong)) := by
  have hpieces :
      Course.ofBody 6 (Utf8.ofString "<xml/>") .complete = .delivered .blank := by
    decide +kernel
  intro query d head pieces excess
  obtain ⟨hsame, hcourse⟩ := d.handle_chunks 0 d.initialPool head authentic_ab
  refine ⟨authentic_ab, hsame pieces _ rfl rfl, ?_, hcourse excess⟩
  exact hpieces ▸ hcourse pieces

end Dispatcher
end PushGate
