import PushGate.Message.Kind

/-!
# Routes

Each message takes one route to its handler.  The kind settles the route, except that a voice
message with recognised speech and a subscription through a scanned code have routes of their own,
and that an event takes the route of what it reports.  What is not recognised takes the route
`unknown`.

**Results.**
* `mem_all`: every route is listed.
* `name_injective`: no two routes have the same name.
-/

namespace PushGate

/-- The routes of messages. -/
inductive Route where
  | text
  | image
  | voice
  | voiceRecognition
  | video
  | location
  | link
  | subscribeEvent
  | subscribeEventByScan
  | unsubscribeEvent
  | scanEvent
  | locationEvent
  | clickEvent
  | viewEvent
  | massSendJobFinishEvent
  | unknown
deriving DecidableEq

namespace Route

/-- The name of a route. -/
def name : Route → String
  | .text => "text"
  | .image => "image"
  | .voice => "voice"
  | .voiceRecognition => "voice_recognition"
  | .video => "video"
  | .location => "location"
  | .link => "link"
  | .subscribeEvent => "subscribe_event"
  | .subscribeEventByScan => "subscribe_event_by_scan"
  | .unsubscribeEvent => "unsubscribe_event"
  | .scanEvent => "scan_event"
  | .locationEvent => "location_event"
  | .clickEvent => "click_event"
  | .viewEvent => "view_event"
  | .massSendJobFinishEvent => "mass_send_job_finish_event"
  | .unknown => "unknown"

/-- The routes. -/
def all : List Route :=
  [.text, .image, .voice, .voiceRecognition, .video, .location, .link, .subscribeEvent,
    .subscribeEventByScan, .unsubscribeEvent, .scanEvent, .locationEvent, .clickEvent, .viewEvent,
    .massSendJobFinishEvent, .unknown]

/-- The route of an event message. -/
def ofEvent (m : Message) : Route :=
  match m.eventKind with
  | .subscribe => if m.ticket = "" then .subscribeEvent else .subscribeEventByScan
  | .unsubscribe => .unsubscribeEvent
  | .scan => .scanEvent
  | .location => .locationEvent
  | .click => .clickEvent
  | .view => .viewEvent
  | .massSendJobFinish => .massSendJobFinishEvent
  | .unrecognized => .unknown

/-- The route of a message. -/
def ofMessage (m : Message) : Route :=
  match m.kind with
  | .text => .text
  | .image => .image
  | .voice => if m.recognition = "" then .voice else .voiceRecognition
  | .video => .video
  | .location => .location
  | .link => .link
  | .event => ofEvent m
  | .unrecognized => .unknown

/-- Every route is listed. -/
theorem mem_all (r : Route) : r ∈ all := by
  cases r <;> decide

/-- No two routes have the same name. -/
theorem name_injective {r s : Route} (h : r.name = s.name) : r = s := by
  have : ∀ r ∈ all, ∀ s ∈ all, r.name = s.name → r = s := by decide
  exact this r r.mem_all s s.mem_all h

end Route
end PushGate
