import PushGate.Proofs.Dispatcher.Course

/-!
# Routing

Which handler a message comes to is written down here as it is agreed with the platform: by tables of the
texts that a message may have as its type and its event.  Most of these texts lead to a route of their
own.  Two lead to one of two routes: a voice message goes by whether speech was recognised in it, and a
subscription by whether it comes with a ticket.  A type that is in no table leads to the route `unknown`,
and so does an event message whose event is in no table.

The texts are compared as they stand, so that case and white space count, and no field has a part in it but
those that are named: a ticket or an event on a message of another type does not divert it.

**Results.**
* `leadsTo_iff`: the tables say what the route of a message is.
* `Message.SameKind.leadsTo`: messages that agree in what the tables look at have the same route.
* `handle_routed`: an exchange comes to the handler to which its message leads, and to no other.
-/

namespace PushGate

/-- The types that a message may have. -/
def knownTypes : List String :=
  ["text", "image", "voice", "video", "location", "link", "event"]

/-- The events that an event message may report. -/
def knownEvents : List String :=
  ["subscribe", "unsubscribe", "SCAN", "LOCATION", "CLICK", "VIEW", "MASSSENDJOBFINISH"]

/-- The types that lead to a route by themselves. -/
def routesOfTypes : List (String × Route) :=
  [("text", .text), ("image", .image), ("video", .video), ("location", .location), ("link", .link)]

/-- The events that lead to a route by themselves. -/
def routesOfEvents : List (String × Route) :=
  [("unsubscribe", .unsubscribeEvent), ("SCAN", .scanEvent), ("LOCATION", .locationEvent),
    ("CLICK", .clickEvent), ("VIEW", .viewEvent), ("MASSSENDJOBFINISH", .massSendJobFinishEvent)]

namespace Message

/-- The route to which a message leads. -/
inductive LeadsTo (m : Message) : Route → Prop
  | ofType
      {route : Route}
      (type : (m.msgType, route) ∈ routesOfTypes) :
      m.LeadsTo route
  | voice
      (type : m.msgType = "voice")
      (silent : m.recognition = "") :
      m.LeadsTo .voice
  | voiceRecognition
      (type : m.msgType = "voice")
      (recognised : m.recognition ≠ "") :
      m.LeadsTo .voiceRecognition
  | ofEvent
      {route : Route}
      (type : m.msgType = "event")
      (event : (m.event, route) ∈ routesOfEvents) :
      m.LeadsTo route
  | subscribe
      (type : m.msgType = "event")
      (event : m.event = "subscribe")
      (plain : m.ticket = "") :
      m.LeadsTo .subscribeEvent
  | subscribeByScan
      (type : m.msgType = "event")
      (event : m.event = "subscribe")
      (scanned : m.ticket ≠ "") :
      m.LeadsTo .subscribeEventByScan
  | unknownType
      (type : m.msgType ∉ knownTypes) :
      m.LeadsTo .unknown
  | unknownEvent
      (type : m.msgType = "event")
      (event : m.event ∉ knownEvents) :
      m.LeadsTo .unknown

/-- Two messages agree in what their route depends on. -/
structure SameKind (m n : Message) : Prop where
  type : m.msgType = n.msgType
  recognition : m.msgType = "voice" → (m.recognition = "" ↔ n.recognition = "")
  event : m.msgType = "event" → m.event = n.event
  ticket : m.msgType = "event" → m.event = "subscribe" → (m.ticket = "" ↔ n.ticket = "")

section Tables

variable {m n : Message} {route : Route}

/-- A type that is in no table is of no known kind. -/
theorem kind_of_not_mem
    (h : m.msgType ∉ knownTypes) :
    m.kind = .unrecognized := by
  refine Kind.ofText_eq_unrecognized_iff.2 fun k hk hname => h ?_
  rw [← hname]
  exact List.mem_map_of_mem (f := Kind.name) hk

/-- An event that is in no table is of no known kind. -/
theorem eventKind_of_not_mem
    (h : m.event ∉ knownEvents) :
    m.eventKind = .unrecognized := by
  refine EventKind.ofText_eq_unrecognized_iff.2 fun k hk hname => h ?_
  have htable : EventKind.known.filterMap EventKind.name? = knownEvents := rfl
  rw [← htable]
  exact List.mem_filterMap.2 ⟨k, hk, hname⟩

/-- The tables say of no message more than one route, and it is the one that the message takes. -/
theorem LeadsTo.eq
    (h : m.LeadsTo route) :
    Route.ofMessage m = route := by
  cases h with
  | ofType type =>
      simp only [routesOfTypes, List.mem_cons, Prod.mk.injEq, List.not_mem_nil, or_false] at type
      rcases type with ⟨htype, rfl⟩ | ⟨htype, rfl⟩ | ⟨htype, rfl⟩ | ⟨htype, rfl⟩ | ⟨htype, rfl⟩ <;>
      · rw [Route.ofMessage, kind, htype]
        rfl
  | voice type silent =>
      rw [Route.ofMessage, kind, type]
      exact if_pos silent
  | voiceRecognition type recognised =>
      rw [Route.ofMessage, kind, type]
      exact if_neg recognised
  | ofEvent type event =>
      rw [Route.ofMessage, kind, type]
      change Route.ofEvent m = route
      simp only [routesOfEvents, List.mem_cons, Prod.mk.injEq, List.not_mem_nil, or_false] at event
      rcases event with ⟨hevent, rfl⟩ | ⟨hevent, rfl⟩ | ⟨hevent, rfl⟩ | ⟨hevent, rfl⟩ |
        ⟨hevent, rfl⟩ | ⟨hevent, rfl⟩ <;>
      · rw [Route.ofEvent, eventKind, hevent]
        rfl
  | subscribe type event plain =>
      rw [Route.ofMessage, kind, type]
      change Route.ofEvent m = .subscribeEvent
      rw [Route.ofEvent, eventKind, event]
      exact if_pos plain
  | subscribeByScan type event scanned =>
      rw [Route.ofMessage, kind, type]
      change Route.ofEvent m = .subscribeEventByScan
      rw [Route.ofEvent, eventKind, event]
      exact if_neg scanned
  | unknownType type =>
      rw [Route.ofMessage, kind_of_not_mem type]
  | unknownEvent type event =>
      rw [Route.ofMessage, kind, type]
      change Route.ofEvent m = .unknown
      rw [Route.ofEvent, eventKind_of_not_mem event]

/-- An event that is known leads to a route. -/
theorem leadsTo_of_event
    (type : m.msgType = "event")
    (known : m.event ∈ knownEvents) :
    ∃ route, m.LeadsTo route := by
  by_cases hsubscribe : m.event = "subscribe"
  · by_cases hticket : m.ticket = ""
    · exact ⟨_, .subscribe type hsubscribe hticket⟩
    · exact ⟨_, .subscribeByScan type hsubscribe hticket⟩
  · have hname : m.event ∈ routesOfEvents.map Prod.fst :=
      List.mem_of_ne_of_mem hsubscribe known
    obtain ⟨⟨_, route⟩, hmem, rfl⟩ := List.mem_map.1 hname
    exact ⟨route, .ofEvent type hmem⟩

/-- Every message leads to a route: the tables leave nothing out. -/
theorem leadsTo_exists
    (m : Message) :
    ∃ route, m.LeadsTo route := by
  by_cases hknown : m.msgType ∈ knownTypes
  · by_cases hvoice : m.msgType = "voice"
    · by_cases hspeech : m.recognition = ""
      · exact ⟨_, .voice hvoice hspeech⟩
      · exact ⟨_, .voiceRecognition hvoice hspeech⟩
    by_cases hevent : m.msgType = "event"
    · by_cases hreported : m.event ∈ knownEvents
      · exact leadsTo_of_event hevent hreported
      · exact ⟨_, .unknownEvent hevent hreported⟩
    · have hname : m.msgType ∈ routesOfTypes.map Prod.fst := by
        simp only [knownTypes, List.mem_cons, List.not_mem_nil, hvoice, hevent, false_or, or_false]
          at hknown
        simpa [routesOfTypes] using hknown
      obtain ⟨⟨_, route⟩, hmem, htype⟩ := List.mem_map.1 hname
      obtain rfl : _ = m.msgType := htype
      exact ⟨route, .ofType hmem⟩
  · exact ⟨_, .unknownType hknown⟩

/-- The tables say what the route of a message is. -/
theorem leadsTo_iff :
    m.LeadsTo route ↔ Route.ofMessage m = route := by
  refine ⟨LeadsTo.eq, ?_⟩
  rintro rfl
  obtain ⟨route, h⟩ := m.leadsTo_exists
  rwa [h.eq]

/-- What leads to the route `unknown`. -/
theorem leadsTo_unknown_iff :
    m.LeadsTo .unknown ↔ m.msgType ∉ knownTypes ∨ (m.msgType = "event" ∧ m.event ∉ knownEvents) := by
  constructor
  · intro h
    cases h with
    | ofType type => simp [routesOfTypes] at type
    | ofEvent _ event => simp [routesOfEvents] at event
    | unknownType type => exact .inl type
    | unknownEvent type event => exact .inr ⟨type, event⟩
  · rintro (type | ⟨type, event⟩)
    · exact .unknownType type
    · exact .unknownEvent type event

/-- Messages that agree in what the tables look at have the same route. -/
theorem SameKind.leadsTo
    (h : m.SameKind n)
    (hm : m.LeadsTo route) :
    n.LeadsTo route := by
  cases hm with
  | ofType type => exact .ofType (h.type ▸ type)
  | voice type silent => exact .voice (h.type ▸ type) ((h.recognition type).1 silent)
  | voiceRecognition type recognised =>
      exact .voiceRecognition (h.type ▸ type) (mt (h.recognition type).2 recognised)
  | ofEvent type event => exact .ofEvent (h.type ▸ type) (h.event type ▸ event)
  | subscribe type event plain =>
      exact .subscribe (h.type ▸ type) (h.event type ▸ event) ((h.ticket type event).1 plain)
  | subscribeByScan type event scanned =>
      exact .subscribeByScan (h.type ▸ type) (h.event type ▸ event)
        (mt (h.ticket type event).2 scanned)
  | unknownType type => exact .unknownType (h.type ▸ type)
  | unknownEvent type event => exact .unknownEvent (h.type ▸ type) (h.event type ▸ event)

end Tables

end Message

namespace Dispatcher

variable {x : Exchange} {m : Message}

/-- What is delivered comes to the handler to which the message leads. -/
theorem called_of_leadsTo
    (d : Dispatcher)
    (room : Nat)
    (pool : Pool Message)
    {route : Route}
    (takes : d.Takes x (.delivered m))
    (leads : m.LeadsTo route) :
    d.Called room x.head (.message route m) (d.handle room pool x).1 := by
  obtain rfl := leads.eq
  exact d.called_of_delivered room pool takes

/-- **Which handler is called.**  A message leads to one route, and the handler of that route is called,
once, and no other.  It is the handler of the unknown exactly if the type, or the event of an event
message, is in no table.  Two messages that agree in what the tables look at come to handlers of the same
route, whatever their other fields hold and whatever exchange they come with. -/
theorem handle_routed
    (d : Dispatcher)
    (room : Nat)
    (pool : Pool Message)
    (takes : d.Takes x (.delivered m)) :
    (∃! route, m.LeadsTo route) ∧
    (∀ route, m.LeadsTo route →
      d.Called room x.head (.message route m) (d.handle room pool x).1) ∧
    ((d.handle room pool x).1.calls.map Call.occasion = [.message .unknown m] ↔
      m.msgType ∉ knownTypes ∨ (m.msgType = "event" ∧ m.event ∉ knownEvents)) ∧
    ∀ (room' : Nat) (pool' : Pool Message) (x' : Exchange) (m' : Message),
      d.Takes x' (.delivered m') →
      m.SameKind m' →
      ∃ route,
        d.Called room x.head (.message route m) (d.handle room pool x).1 ∧
        d.Called room' x'.head (.message route m') (d.handle room' pool' x').1 := by
  obtain ⟨route, leads⟩ := m.leadsTo_exists
  have hcalled := d.called_of_leadsTo room pool takes leads
  refine ⟨⟨route, leads, fun other hother => hother.eq.symm.trans leads.eq⟩,
    fun other hother => d.called_of_leadsTo room pool takes hother, ?_, ?_⟩
  · rw [hcalled.occasion_eq, ← Message.leadsTo_unknown_iff, Message.leadsTo_iff, leads.eq]
    simp
  · intro room' pool' x' m' takes' same
    exact ⟨route, hcalled, d.called_of_leadsTo room' pool' takes' (same.leadsTo leads)⟩

/-- Of two voice messages without recognised speech one has an event and a ticket besides, like a
subscription; both come to the handler of voice messages. -/
theorem handle_routed_stray_event :
    let query := some (Utf8.ofString
      "signature=a0cb86810386f1333adc43d062861b27b2fe0a64&timestamp=aba&nonce=c")
    let plain := Utf8.ofString "<xml><MsgType>voice</MsgType></xml>"
    let stray := Utf8.ofString
      "<xml><Event>subscribe</Event><Ticket>t</Ticket><MsgType>voice</MsgType></xml>"
    let d : Dispatcher := ⟨"ab", 100, 1, {}, by decide, by decide⟩
    let x (body : Bytes) : Exchange := ⟨⟨"POST", "/", query⟩, [.data body]⟩
    let m (body : Bytes) : Message := (Decoder.decode .blank body).message
    d.Takes (x plain) (.delivered (m plain)) ∧
    d.Takes (x stray) (.delivered (m stray)) ∧
    (m plain).SameKind (m stray) ∧
    ((m stray).event = "subscribe" ∧ (m stray).ticket = "t") ∧
    (m plain).LeadsTo .voice ∧
    d.CalledOnce 0 (x stray).head (.message .voice (m stray)) (.reply (.empty 200))
      (d.handle 0 d.initialPool (x stray)).1 := by
  have hplain : Decoder.decode .blank (Utf8.ofString "<xml><MsgType>voice</MsgType></xml>") =
      ⟨{ msgType := "voice" }, none⟩ := by
    decide +kernel
  have hstray : Decoder.decode .blank (Utf8.ofString
        "<xml><Event>subscribe</Event><Ticket>t</Ticket><MsgType>voice</MsgType></xml>") =
      ⟨{ msgType := "voice", event := "subscribe", ticket := "t" }, none⟩ := by
    decide +kernel
  intro query plain stray d x m
  have htakes : ∀ body : Bytes, body.length ≤ 100 → (Decoder.decode .blank body).fault = none →
      d.Takes (x body) (.delivered (m body)) := by
    intro body hlength hsound
    have hbytes : deliveredBytes (x body).body = body := List.append_nil body
    have hdelivered : d.Takes (x body)
        (.delivered (Decoder.decode .blank (deliveredBytes (x body).body)).message) :=
      .message authentic_ab (hbytes.symm ▸ hlength) rfl (hbytes.symm ▸ hsound)
    rwa [hbytes] at hdelivered
  have hm : m plain = { msgType := "voice" } :=
    congrArg Decoder.Outcome.message hplain
  have hm' : m stray = { msgType := "voice", event := "subscribe", ticket := "t" } :=
    congrArg Decoder.Outcome.message hstray
  have hplainTakes : d.Takes (x plain) (.delivered (m plain)) :=
    htakes plain (by decide +kernel) (congrArg Decoder.Outcome.fault hplain)
  have hstrayTakes : d.Takes (x stray) (.delivered (m stray)) :=
    htakes stray (by decide +kernel) (congrArg Decoder.Outcome.fault hstray)
  have hsame : (m plain).SameKind (m stray) := by
    rw [hm, hm']
    exact ⟨rfl, fun _ => .rfl, nofun, nofun⟩
  have hleads : (m plain).LeadsTo .voice := by
    rw [hm]
    exact .voice rfl rfl
  obtain ⟨-, hcalled, -, hsameRoute⟩ := d.handle_routed 0 d.initialPool hplainTakes
  refine ⟨hplainTakes, hstrayTakes, hsame, by simp [hm'], hleads, ?_⟩
  obtain ⟨route, hfirst, hsecond⟩ := hsameRoute 0 d.initialPool (x stray) (m stray) hstrayTakes hsame
  have hoccasion := hfirst.occasion_eq.symm.trans (hcalled .voice hleads).occasion_eq
  obtain rfl : route = .voice := by
    cases hoccasion
    rfl
  exact hsecond.calledOnce (.messageByDefault rfl)

end Dispatcher
end PushGate
