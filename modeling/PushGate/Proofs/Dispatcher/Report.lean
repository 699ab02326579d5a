import PushGate.Proofs.Dispatcher.Course

/-!
# What the log tells of an exchange

The log of an exchange is written by its stages and by the handler that is called.  Authentication
reports a signature that does not fit, and nothing else; a message is reported once more when it has been
routed.  Which handlers are registered makes no difference to these lines.

The standard handlers report the occasion for which they are called, each in a line of its own kind: a
rejection with the status of the answer and the text of the cause, a message with the name of its route,
and a message that is not recognised with what it says of its kind.  A handler that has been registered
in place of one of these takes its line away.

**Results.**
* `log_of_delivered`, `log_of_rejected`, `log_of_cancelled`: the log of each course.
* `exists_lines_of_takes`: its lines, those of the stages and then those of the handler.
* `handle_logs`: the log of an exchange, with whatever handlers.
-/

namespace PushGate

/-- A line of the log as it is shown: an event, and fields by name. -/
abbrev LogLine : Type :=
  String × List (String × LogValue)

/-- The line of an entry. -/
def LogEntry.line (entry : LogEntry) : LogLine :=
  (entry.event, entry.fields)

/-- A line that a stage of the exchange has written, and no handler. -/
def LogLine.ofStage (line : LogLine) : Bool :=
  line.1 == "wechat_signature_mismatch" || line.1 == "wechat_request_routed"

/-- The lines that the stages of an exchange write, by its course. -/
inductive StageLines (head : Head) : Course → List LogLine → Prop
  | cancelled :
      StageLines head .cancelled []
  | mismatch
      {signature timestamp nonce : String}
      (given : GivesAll head.query signature timestamp nonce) :
      StageLines head (.rejected .signatureMismatch)
        [("wechat_signature_mismatch",
          [("expected_length", .number 40),
            ("actual_length", .number (Utf8.ofString signature).length)])]
  | rejected
      {e : Rejection}
      (other : e ≠ .signatureMismatch) :
      StageLines head (.rejected e) []
  | delivered
      {m : Message} :
      StageLines head (.delivered m)
        [("wechat_request_routed",
          [("route", .text (Route.ofMessage m).name), ("msg_type", .text m.msgType),
            ("event", .text m.event), ("from_user", .text m.fromUserName)])]

/-- The lines that the handler of an exchange writes that is answered so, by its course: a standard
handler writes one, and one that has been registered writes none. -/
inductive HandlerLines
    (hs : Handlers)
    (head : Head)
    (answer : Answer) :
    Course → List LogLine → Prop
  | cancelled :
      HandlerLines hs head answer .cancelled []
  | rejected
      {e : Rejection} {r : Response}
      (standard : hs.rejection = none)
      (answered : answer = .response r)
      (status : r.status = if e = .signatureMismatch then 401 else 400) :
      HandlerLines hs head answer (.rejected e)
        [("wechat_invalid_request",
          [("method", .text head.method), ("path", .text head.path), ("status", .number r.status),
            ("error", .text e.text)])]
  | rejectedByOther
      {e : Rejection} {h : RejectionHandler}
      (registered : hs.rejection = some h) :
      HandlerLines hs head answer (.rejected e) []
  | delivered
      {m : Message}
      (standard : hs.message (Route.ofMessage m) = none)
      (known : Route.ofMessage m ≠ .unknown) :
      HandlerLines hs head answer (.delivered m)
        [("wechat_default_handler",
          [("route", .text (Route.ofMessage m).name), ("from_user", .text m.fromUserName),
            ("msg_id", .number m.msgId.toInt)])]
  | deliveredUnknown
      {m : Message}
      (standard : hs.message (Route.ofMessage m) = none)
      (unknown : Route.ofMessage m = .unknown) :
      HandlerLines hs head answer (.delivered m)
        [("wechat_unknown_request",
          [("msg_type", .text m.msgType), ("event", .text m.event),
            ("from_user", .text m.fromUserName)])]
  | deliveredToOther
      {m : Message} {h : MessageHandler}
      (registered : hs.message (Route.ofMessage m) = some h) :
      HandlerLines hs head answer (.delivered m) []

section Authentication

variable {token : String} {query : Option Bytes}

/-- Nothing is reported of an authentic query. -/
theorem log_of_authentic
    (h : Authentic token query) :
    (authenticate token query).2 = [] := by
  have hadmitted := authentic_iff.1 h
  unfold authenticate at hadmitted ⊢
  cases hpresented : presented query with
  | error e => rfl
  | ok texts =>
      simp only [hpresented, checkSignature] at hadmitted ⊢
      split at hadmitted
      · rename_i entries hcheck
        split at hcheck
        · cases hcheck
          rfl
        · cases hcheck
      · cases hadmitted

/-- Of a query that is refused, a signature that does not fit is reported and nothing else. -/
theorem stageLines_of_refused
    {head : Head}
    {e : Rejection}
    (h : Verdict token head.query (.error e)) :
    StageLines head (.rejected e) ((authenticate token head.query).2.map LogEntry.line) := by
  cases h with
  | repeated twice =>
      rw [authenticate, presented_of_twice twice]
      exact .rejected (by simp)
  | missing atMostOnce earlier lacks =>
      rw [authenticate, presented_of_lacks atMostOnce earlier lacks]
      exact .rejected (by simp)
  | @mismatch signature timestamp nonce given other =>
      have hcheck : ¬ Signature.check signature timestamp nonce token = true :=
        fun hfits => other (Signature.check_eq_true_iff.1 hfits)
      rw [authenticate, presented_of_givesAll given]
      simp only [checkSignature, if_neg hcheck]
      exact .mismatch given

/-- A query gives one signature at most. -/
theorem GivesAll.signature_unique
    {signature timestamp nonce signature' timestamp' nonce' : String}
    (h : GivesAll query signature timestamp nonce)
    (h' : GivesAll query signature' timestamp' nonce') :
    signature = signature' := by
  have hpresented := presented_of_givesAll h
  rw [presented_of_givesAll h'] at hpresented
  cases hpresented
  rfl

end Authentication

section Lines

variable {hs : Handlers} {head : Head} {answer : Answer} {course : Course} {lines lines' : List LogLine}

/-- The course settles the lines of the stages. -/
theorem StageLines.unique
    (h : StageLines head course lines)
    (h' : StageLines head course lines') :
    lines = lines' := by
  cases h with
  | mismatch given =>
      cases h' with
      | mismatch given' => rw [given.signature_unique given']
      | rejected other => exact absurd rfl other
  | rejected other =>
      cases h' with
      | mismatch given' => exact absurd rfl other
      | rejected _ => rfl
  | _ =>
      cases h'
      rfl

theorem StageLines.filter_ofStage
    (h : StageLines head course lines) :
    lines.filter LogLine.ofStage = lines := by
  cases h <;> rfl

theorem HandlerLines.filter_ofStage
    (h : HandlerLines hs head answer course lines) :
    lines.filter LogLine.ofStage = [] := by
  cases h <;> rfl

end Lines

namespace Dispatcher

section Courses

variable {d : Dispatcher} {room : Nat} {pool : Pool Message} {x : Exchange}

theorem log_of_cancelled
    (h : d.Takes x .cancelled) :
    (d.handle room pool x).1.log = [] := by
  cases h with
  | stalled authentic within ending =>
      rw [handle_eq_serve,
        d.serve_of_stalled (authentic_iff.1 authentic) (receive_of_stalled within ending)]
      exact log_of_authentic authentic

/-- What is reported of an exchange that is delivered. -/
theorem log_of_delivered
    {m : Message}
    (h : d.Takes x (.delivered m)) :
    (d.handle room pool x).1.log =
      .requestRouted (Route.ofMessage m) m.msgType m.event m.fromUserName ::
        (d.handlers.actOnMessage room x.head (Route.ofMessage m) m).1 := by
  cases h with
  | message authentic within ending sound =>
      rw [handle_eq_serve,
        d.serve_of_whole (authentic_iff.1 authentic) (receive_of_complete within ending),
        d.accept_of_message sound, log_of_authentic authentic]
      rfl

/-- What is reported of an exchange that is rejected, at whatever stage. -/
theorem log_of_rejected
    {e : Rejection}
    (h : d.Takes x (.rejected e)) :
    (d.handle room pool x).1.log =
      (authenticate d.token x.head.query).2 ++ (d.handlers.actOnRejection room x.head e).1 := by
  rw [handle_eq_serve]
  cases h with
  | refused verdict =>
      rw [d.serve_of_refused (authenticate_of_verdict verdict)]
      rfl
  | tooLong authentic excess =>
      rw [d.serve_of_broken (authentic_iff.1 authentic) (receive_of_excess excess)]
      rfl
  | broken authentic within ending =>
      rw [d.serve_of_broken (authentic_iff.1 authentic) (receive_of_failure within ending)]
      rfl
  | noMessage authentic within ending fault =>
      rw [d.serve_of_whole (authentic_iff.1 authentic) (receive_of_complete within ending),
        d.accept_of_fault fault]
      rfl

/-- What the stages report of an exchange that is rejected. -/
theorem stageLines_of_rejected
    {e : Rejection}
    (h : d.Takes x (.rejected e)) :
    StageLines x.head (.rejected e)
      ((authenticate d.token x.head.query).2.map LogEntry.line) := by
  have hsilent : Authentic d.token x.head.query → e ≠ .signatureMismatch →
      StageLines x.head (.rejected e)
        ((authenticate d.token x.head.query).2.map LogEntry.line) := by
    intro hauthentic hother
    rw [log_of_authentic hauthentic]
    exact .rejected hother
  cases h with
  | refused verdict => exact stageLines_of_refused verdict
  | tooLong authentic excess => exact hsilent authentic (by simp)
  | broken authentic within ending => exact hsilent authentic (by simp)
  | noMessage authentic within ending fault => exact hsilent authentic (by simp)

theorem handlerLines_of_rejected
    {e : Rejection}
    (h : d.Takes x (.rejected e)) :
    HandlerLines d.handlers x.head (d.handle room pool x).1.answer (.rejected e)
      ((d.handlers.actOnRejection room x.head e).1.map LogEntry.line) := by
  obtain ⟨action, does, entered, -, hanswer⟩ := d.called_of_rejected room pool h
  rw [hanswer, Handlers.actOnRejection]
  cases does with
  | rejection registered =>
      rw [registered]
      exact .rejectedByOther registered
  | rejectionByDefault unregistered =>
      rw [unregistered]
      refine .rejected (r := .plainText e.status e.reason) unregistered rfl ?_
      cases e <;> rfl

theorem handlerLines_of_delivered
    (room : Nat)
    (answer : Answer)
    {m : Message} :
    HandlerLines d.handlers x.head answer (.delivered m)
      ((d.handlers.actOnMessage room x.head (Route.ofMessage m) m).1.map LogEntry.line) := by
  cases hregistered : d.handlers.message (Route.ofMessage m) with
  | some handler =>
      rw [Handlers.actOnMessage, hregistered]
      exact .deliveredToOther hregistered
  | none =>
      rw [Handlers.actOnMessage, hregistered]
      by_cases hunknown : Route.ofMessage m = .unknown
      · rw [Handlers.standardEntry, if_pos hunknown]
        exact .deliveredUnknown hregistered hunknown
      · rw [Handlers.standardEntry, if_neg hunknown]
        exact .delivered hregistered hunknown

/-- The log of an exchange is what its stages report, and behind it what its handler reports. -/
theorem exists_lines_of_takes
    (room : Nat)
    (pool : Pool Message)
    {course : Course}
    (h : d.Takes x course) :
    ∃ stages own,
      StageLines x.head course stages ∧
      HandlerLines d.handlers x.head (d.handle room pool x).1.answer course own ∧
      (d.handle room pool x).1.log.map LogEntry.line = stages ++ own := by
  cases course with
  | cancelled =>
      refine ⟨[], [], .cancelled, .cancelled, ?_⟩
      rw [log_of_cancelled h]
      rfl
  | delivered m =>
      refine ⟨_, _, .delivered, handlerLines_of_delivered room _, ?_⟩
      rw [log_of_delivered h]
      rfl
  | rejected e =>
      refine ⟨_, _, stageLines_of_rejected h, handlerLines_of_rejected h, ?_⟩
      rw [log_of_rejected h, List.map_append]

/-- What is left of the log without the lines of handlers is what the stages report. -/
theorem filter_ofStage_of_takes
    {course : Course}
    {stages : List LogLine}
    (h : d.Takes x course)
    (hstages : StageLines x.head course stages) :
    ((d.handle room pool x).1.log.map LogEntry.line).filter LogLine.ofStage = stages := by
  obtain ⟨stages', own, hstages', hown, hlog⟩ := exists_lines_of_takes room pool h
  rw [hlog, List.filter_append, hstages'.filter_ofStage, hown.filter_ofStage, List.append_nil]
  exact hstages'.unique hstages

end Courses

/-- **What the log tells.**  An exchange takes one course, and its log tells it: nothing of one that is
cancelled; of one that is rejected the signature that does not fit, exactly if that is the cause, and then
the line of the handler; of one that is delivered the route that the message takes, and then the line of the
handler.  There is a line of the handler exactly where the standard one is called, and it shows the status
that is answered and the text of the cause, or the name of the route, or what the message says of its kind
if its route is `unknown`.  Whatever handlers there are, the other lines are the same. -/
theorem handle_logs
    (d : Dispatcher)
    (room : Nat)
    (pool : Pool Message)
    (x : Exchange) :
    (∃! course, d.Takes x course) ∧
    (∀ course, d.Takes x course →
      ∃ stages own,
        StageLines x.head course stages ∧
        HandlerLines d.handlers x.head (d.handle room pool x).1.answer course own ∧
        (d.handle room pool x).1.log.map LogEntry.line = stages ++ own) ∧
    ∀ (d' : Dispatcher) (room' : Nat) (pool' : Pool Message),
      d'.token = d.token →
      d'.maxBodyBytes = d.maxBodyBytes →
      ((d'.handle room' pool' x).1.log.map LogEntry.line).filter LogLine.ofStage =
        ((d.handle room pool x).1.log.map LogEntry.line).filter LogLine.ofStage := by
  obtain ⟨course, hcourse⟩ := d.takes_exists x
  refine ⟨⟨course, hcourse, fun other hother => hother.unique hcourse⟩,
    fun _ htakes => exists_lines_of_takes room pool htakes, ?_⟩
  intro d' room' pool' htoken hlimit
  obtain ⟨stages, own, hstages, -, -⟩ := exists_lines_of_takes room pool hcourse
  rw [filter_ofStage_of_takes hcourse hstages]
  exact filter_ofStage_of_takes (hcourse.congr htoken hlimit) hstages

/-- A signature of three characters is reported twice, once with the status of the answer; a handler of
rejections that has been registered leaves the first line only. -/
theorem handle_logs_short_signature :
    let d : Dispatcher := ⟨"mytoken", 16, 1, {}, by decide, by decide⟩
    let quiet : RejectionHandler := fun _ _ _ => .reply (.empty 204)
    let d' : Dispatcher := ⟨"mytoken", 16, 7, { rejection := some quiet }, by decide, by decide⟩
    let x : Exchange :=
      ⟨⟨"POST", "/wechat", some (Utf8.ofString "signature=abc&timestamp=14&nonce=9")⟩, [.stalled]⟩
    let refused : LogLine :=
      ("wechat_signature_mismatch", [("expected_length", .number 40), ("actual_length", .number 3)])
    d.Takes x (.rejected .signatureMismatch) ∧
    (d'.token = d.token ∧ d'.maxBodyBytes = d.maxBodyBytes) ∧
    (d.handle 2 d.initialPool x).1.log.map LogEntry.line =
      [refused,
        ("wechat_invalid_request",
          [("method", .text "POST"), ("path", .text "/wechat"), ("status", .number 401),
            ("error", .text "check signature failed")])] ∧
    ((d'.handle 0 d'.initialPool x).1.log.map LogEntry.line).filter LogLine.ofStage = [refused] := by
  have hgiven : GivesAll (some (Utf8.ofString "signature=abc&timestamp=14&nonce=9")) "abc" "14" "9" := by
    decide +kernel
  have hother : "abc" ≠ Signature.compute "mytoken" "14" "9" := by
    intro heq
    have hforty := congrArg String.length heq
    rw [Signature.length_compute] at hforty
    exact absurd hforty (by decide)
  have hlength : (Utf8.ofString "abc").length = 3 := by decide +kernel
  intro d quiet d' x refused
  have htakes : d.Takes x (.rejected .signatureMismatch) := .refused (.mismatch hgiven hother)
  have hrefused : StageLines x.head (.rejected .signatureMismatch) [refused] := by
    have hline : StageLines x.head (.rejected .signatureMismatch) _ := .mismatch hgiven
    rwa [hlength] at hline
  obtain ⟨-, hlines, hsame⟩ := handle_logs d 2 d.initialPool x
  obtain ⟨stages, own, hstages, hown, hlog⟩ := hlines _ htakes
  obtain rfl := hstages.unique hrefused
  refine ⟨htakes, ⟨rfl, rfl⟩, ?_, ?_⟩
  · cases hown with
    | @rejected _ r standard answered status =>
        have hstatus : r.status = 401 := status
        rw [hlog, hstatus]
        rfl
    | rejectedByOther registered => cases registered
  · rw [hsame d' 0 d'.initialPool rfl rfl]
    exact filter_ofStage_of_takes htakes hrefused

end Dispatcher
end PushGate
