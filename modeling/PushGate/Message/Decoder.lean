import PushGate.Markup.Reader
import PushGate.Message.Tag

/-!
# Decoding pushes

A push is a document whose root element is named `xml`.  Each child of the root that bears the tag of
a field gives the field its value: the character data and CDATA sections that stand directly in
it, joined.  Of several children for one field the last one counts; children of other names, and
whatever stands deeper than a child, count for nothing.

The decoder goes through the events of the document once.  It knows how many elements are open,
whether it has met a root, which field the open child belongs to, and what it has read of a number.
It stops with the end tag of the root, and with the first fault; the message is then what has been
read of it.

**Results.**
* `decode_eq`: what is decoded does not depend on what the message held before.
-/

namespace PushGate

open Markup (Event Ending Reading)

namespace Decoder

/-- What can be wrong with a push. -/
inductive Error where
  /-- The document, or the character data of a field, is malformed. -/
  | malformed (fault : Markup.Error)
  /-- A CDATA section of a field is not UTF-8. -/
  | notUtf8 (fault : Utf8.Error)
  | missingRoot
  /-- The root is named otherwise. -/
  | unexpectedRoot (name : String)
  | truncated
  /-- The content of a numeric field is no number of the field's type. -/
  | invalidNumber (field : NumberField) (content : String)
deriving DecidableEq

def Error.message : Error → String
  | .malformed fault => s!"malformed XML: {fault.message}"
  | .notUtf8 fault => s!"invalid UTF-8 in CDATA: {fault.message}"
  | .missingRoot => "missing <xml> root element"
  | .unexpectedRoot name => s!"unexpected root element <{name}>"
  | .truncated => "document truncated inside <xml>"
  | .invalidNumber field content =>
      s!"invalid value {Text.quote content} for {field.tag}"

/-- What decoding leaves behind. -/
structure Outcome where
  /-- The message, as far as it has been read. -/
  message : Message
  /-- What stopped the decoder, unless it reached the end of the push. -/
  fault : Option Error
deriving DecidableEq

/-- Where the decoder stands between two events. -/
structure State where
  message : Message
  depth : Nat := 0
  rootSeen : Bool := false
  /-- The field that the open child of the root belongs to. -/
  field : Option Field := none
  /-- What has been read of a number. -/
  scratch : String := ""
deriving DecidableEq

/-- What an event leads to. -/
inductive Progress where
  | reading (s : State)
  | finished (o : Outcome)
deriving DecidableEq

def rootName : Bytes :=
  Utf8.ofString "xml"

namespace State

def fail (s : State) (e : Error) : Progress :=
  .finished ⟨s.message, some e⟩

/-- Meets a root element; `next` is the state after it. -/
def enterRoot (s next : State) (name : Bytes) : Progress :=
  if name = rootName then .reading { next with rootSeen := true }
  else s.fail (.unexpectedRoot (Utf8.lossy name))

/-- Clears the field that an element belongs to, if it belongs to one. -/
def clearField (s : State) (f : Option Field) : State :=
  match f with
  | some f => { s with message := s.message.clear f }
  | none => s

/-- A start tag, given the local name. -/
def openElement (s : State) (name : Bytes) : Progress :=
  let inner := { s with depth := s.depth + 1 }
  if s.depth = 0 then s.enterRoot inner name
  else if s.depth = 1 then
    let f := Field.ofTag name
    .reading { inner.clearField f with field := f }
  else .reading inner

/-- The tag of an element without content, given the local name. -/
def emptyElement (s : State) (name : Bytes) : Progress :=
  if s.depth = 0 then s.enterRoot s name
  else if s.depth = 1 then .reading (s.clearField (Field.ofTag name))
  else .reading s

/-- The field that character data at this place belongs to. -/
def receiver (s : State) : Option Field :=
  if s.depth = 2 then s.field else none

/-- Adds text to a field: a text field at once, a number to what has been read of it. -/
def append (s : State) (f : Field) (added : String) : State :=
  match f with
  | .text f => { s with message := s.message.setText f (s.message.text f ++ added) }
  | .number _ => { s with scratch := s.scratch ++ added }

def characters (s : State) (content : Bytes) : Progress :=
  match s.receiver with
  | none => .reading s
  | some f =>
      match Markup.characterData content with
      | .ok added => .reading (s.append f (String.ofList added))
      | .error e => s.fail (.malformed e)

def cdataSection (s : State) (content : Bytes) : Progress :=
  match s.receiver with
  | none => .reading s
  | some f =>
      match Utf8.decode content with
      | .ok added => .reading (s.append f (String.ofList added))
      | .error e => s.fail (.notUtf8 e)

/-- Ends the child of the root: what has been read of a number is put into its field, unless it
is nothing at all. -/
def closeField (s : State) : Except Error State :=
  match s.field with
  | none => .ok s
  | some (.text _) => .ok { s with field := none, scratch := "" }
  | some (.number f) =>
      if s.scratch = "" then .ok { s with field := none }
      else
        match s.message.store? f s.scratch with
        | some m => .ok { s with message := m, field := none, scratch := "" }
        | none => .error (.invalidNumber f s.scratch)

def closeElement (s : State) : Progress :=
  match if s.depth = 2 then s.closeField else .ok s with
  | .error e => s.fail e
  | .ok t =>
      if t.depth - 1 = 0 ∧ t.rootSeen then .finished ⟨t.message, none⟩
      else .reading { t with depth := t.depth - 1 }

def step (s : State) : Event → Progress
  | .start name => s.openElement (Markup.localName name)
  | .empty name => s.emptyElement (Markup.localName name)
  | .stop _ => s.closeElement
  | .text content => s.characters content
  | .cdata content => s.cdataSection content
  | .comment => .reading s
  | .instruction => .reading s
  | .doctype => .reading s

def finish (s : State) : Ending → Outcome
  | .malformed e => ⟨s.message, some (.malformed e)⟩
  | .finished =>
      if 0 < s.depth then ⟨s.message, some .truncated⟩
      else if s.rootSeen then ⟨s.message, none⟩
      else ⟨s.message, some .missingRoot⟩

/-- Goes through events until one of them stops the decoder, or to their end. -/
def run (s : State) : List Event → Ending → Outcome
  | [], ending => s.finish ending
  | event :: events, ending =>
      match s.step event with
      | .reading t => t.run events ending
      | .finished o => o

end State

def ofReading (target : Message) (r : Reading) : Outcome :=
  State.run { message := target.reset } r.events r.ending

/-- Decodes the bytes of a push into a message, whatever it held before. -/
def decode (target : Message) (bytes : Bytes) : Outcome :=
  ofReading target (Reading.ofBytes bytes)

/-- What is decoded does not depend on what the message held before. -/
theorem decode_eq (target : Message) (bytes : Bytes) :
    decode target bytes = decode .blank bytes := by
  simp only [decode, ofReading, Message.reset_eq_blank]

end Decoder
end PushGate
