import PushGate.Message.Basic
import PushGate.Text.Blank
import PushGate.Utf8

/-!
# Fields by name

In a push each field is a child element of the root, named by a tag.  The message number may also
be spelled `MsgID`.

**Results.**
* `ofTag_eq_some_iff`: a name is that of a field exactly if it is the field's tag, or the second
  spelling of the message number.
* `tag_injective`: no two fields have the same tag.
-/

namespace PushGate

/-- The tag of a text field. -/
def TextField.tag : TextField → String
  | .toUserName => "ToUserName"
  | .fromUserName => "FromUserName"
  | .msgType => "MsgType"
  | .content => "Content"
  | .picUrl => "PicUrl"
  | .mediaId => "MediaId"
  | .format => "Format"
  | .recognition => "Recognition"
  | .thumbMediaId => "ThumbMediaId"
  | .label => "Label"
  | .title => "Title"
  | .description => "Description"
  | .url => "Url"
  | .event => "Event"
  | .eventKey => "EventKey"
  | .ticket => "Ticket"
  | .status => "Status"

/-- The tag of a numeric field. -/
def NumberField.tag : NumberField → String
  | .int64 .createTime => "CreateTime"
  | .int64 .msgId => "MsgId"
  | .int32 .scale => "Scale"
  | .int32 .totalCount => "TotalCount"
  | .int32 .filterCount => "FilterCount"
  | .int32 .sentCount => "SentCount"
  | .int32 .errorCount => "ErrorCount"
  | .real .locationX => "Location_X"
  | .real .locationY => "Location_Y"
  | .real .latitude => "Latitude"
  | .real .longitude => "Longitude"
  | .real .precision => "Precision"

namespace Field

/-- The tag of a field. -/
def tag : Field → String
  | .text f => f.tag
  | .number f => f.tag

/-- The message number. -/
def msgId : Field := .number (.int64 .msgId)

/-- The second spelling of the message number's tag. -/
def msgIdAlias : String := "MsgID"

/-- The field that an element name belongs to. -/
def ofTag (name : Bytes) : Option Field :=
  if name = Utf8.ofString msgIdAlias then some msgId
  else Field.all.find? fun f => Utf8.ofString f.tag == name

/-- No two fields have the same tag. -/
theorem tag_injective {f g : Field} (h : f.tag = g.tag) : f = g := by
  have : ∀ f ∈ Field.all, ∀ g ∈ Field.all, f.tag = g.tag → f = g := by decide
  exact this f f.mem_all g g.mem_all h

theorem tag_ne_msgIdAlias (f : Field) : f.tag ≠ msgIdAlias := by
  have : ∀ f ∈ Field.all, f.tag ≠ msgIdAlias := by decide
  exact this f f.mem_all

/-- A field is found by its tag. -/
@[simp] theorem ofTag_tag (f : Field) : ofTag (Utf8.ofString f.tag) = some f := by
  rw [ofTag, if_neg fun h => tag_ne_msgIdAlias f (Utf8.ofString_injective h)]
  cases hfind : Field.all.find? fun g => Utf8.ofString g.tag == Utf8.ofString f.tag with
  | none =>
      have := List.find?_eq_none.1 hfind f f.mem_all
      simp at this
  | some g =>
      have := List.find?_some hfind
      simp only [beq_iff_eq] at this
      rw [tag_injective (Utf8.ofString_injective this)]

/-- Exactly the tags and the second spelling name a field. -/
theorem ofTag_eq_some_iff {name : Bytes} {f : Field} :
    ofTag name = some f ↔
      name = Utf8.ofString f.tag ∨ name = Utf8.ofString msgIdAlias ∧ f = msgId := by
  constructor
  · intro h
    unfold ofTag at h
    split at h
    · rename_i hname
      cases h
      exact Or.inr ⟨hname, rfl⟩
    · have := List.find?_some h
      simp only [beq_iff_eq] at this
      exact Or.inl this.symm
  · rintro (rfl | ⟨rfl, rfl⟩)
    · exact ofTag_tag f
    · simp [ofTag]

end Field

namespace Message

/-- Reads the text of a numeric field, without the blanks around it, and puts the number there. -/
def store? (m : Message) (f : NumberField) (content : String) : Option Message :=
  let digits := Text.trim content.toList
  match f with
  | .int64 f => (Decimal.int64? digits).map (m.setInt64 f)
  | .int32 f => (Decimal.int32? digits).map (m.setInt32 f)
  | .real f => (Binary64.ofText? digits).map (m.setReal f)

end Message
end PushGate
