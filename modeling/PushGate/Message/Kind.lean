import PushGate.Message.Basic

/-!
# Kinds of messages

The type of a message is a text; seven of these texts are known.  The messages of type `event`
report an event, of which again seven are known.  Texts are compared as they are: case and blanks
matter.

**Results.**
* `Kind.ofText_eq_iff`, `EventKind.ofText_eq_iff`: a text is of a known kind exactly if it is the
  kind's name.
-/

namespace PushGate

/-- What a message is. -/
inductive Kind where
  | text
  | image
  | voice
  | video
  | location
  | link
  | event
  | unrecognized
deriving DecidableEq

namespace Kind

def name : Kind → String
  | .text => "text"
  | .image => "image"
  | .voice => "voice"
  | .video => "video"
  | .location => "location"
  | .link => "link"
  | .event => "event"
  | .unrecognized => "unrecognized"

def known : List Kind :=
  [.text, .image, .voice, .video, .location, .link, .event]

/-- The kind that a message type names. -/
def ofText (s : String) : Kind :=
  (known.find? fun k => k.name == s).getD .unrecognized

end Kind

/-- What an event message reports. -/
inductive EventKind where
  | subscribe
  | unsubscribe
  | scan
  | location
  | click
  | view
  | massSendJobFinish
  | unrecognized
deriving DecidableEq

namespace EventKind

def name? : EventKind → Option String
  | .subscribe => some "subscribe"
  | .unsubscribe => some "unsubscribe"
  | .scan => some "SCAN"
  | .location => some "LOCATION"
  | .click => some "CLICK"
  | .view => some "VIEW"
  | .massSendJobFinish => some "MASSSENDJOBFINISH"
  | .unrecognized => none

def known : List EventKind :=
  [.subscribe, .unsubscribe, .scan, .location, .click, .view, .massSendJobFinish]

/-- The event that a text names. -/
def ofText (s : String) : EventKind :=
  (known.find? fun k => k.name? == some s).getD .unrecognized

end EventKind

namespace Message

def kind (m : Message) : Kind :=
  Kind.ofText m.msgType

/-- The event that a message reports, if it is an event. -/
def eventKind (m : Message) : EventKind :=
  EventKind.ofText m.event

end Message

/-! ## Which texts are known -/

theorem Kind.ofText_name (k : Kind) : Kind.ofText k.name = k := by
  cases k <;> rfl

/-- A text is of a known kind exactly if it is the kind's name. -/
theorem Kind.ofText_eq_iff {s : String} {k : Kind} (h : k ≠ .unrecognized) :
    Kind.ofText s = k ↔ s = k.name := by
  constructor
  · intro hs
    unfold Kind.ofText at hs
    cases hfind : Kind.known.find? fun k => k.name == s with
    | none =>
        rw [hfind] at hs
        exact absurd hs.symm h
    | some j =>
        rw [hfind] at hs
        have := List.find?_some hfind
        cases hs
        simpa using (beq_iff_eq.1 this).symm
  · rintro rfl
    exact Kind.ofText_name k

theorem EventKind.ofText_name {k : EventKind} {s : String} (h : k.name? = some s) :
    EventKind.ofText s = k := by
  cases k <;> cases h <;> rfl

/-- A text names a known event exactly if it is the event's name. -/
theorem EventKind.ofText_eq_iff {s : String} {k : EventKind} (h : k ≠ .unrecognized) :
    EventKind.ofText s = k ↔ k.name? = some s := by
  constructor
  · intro hs
    unfold EventKind.ofText at hs
    cases hfind : EventKind.known.find? fun k => k.name? == some s with
    | none =>
        rw [hfind] at hs
        exact absurd hs.symm h
    | some j =>
        rw [hfind] at hs
        have := List.find?_some hfind
        cases hs
        simpa using this
  · exact EventKind.ofText_name

end PushGate
