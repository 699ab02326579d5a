import PushGate.Binary64

/-!
# Messages

A push carries a message of twenty-nine fields: texts, numbers of 64 and 32 bits, and
floating-point numbers.  Each kind of message fills some of them; the others keep their zero
value: the empty text, or zero.

A message is a plain record.  So that it can be filled by the names that stand in a push, its fields
are also values, sorted by the type of what they hold.

**Results.**
* `text_setText`, `int64_setInt64`, `int32_setInt32`, `real_setReal`: what is put into a field is
  found there, and other fields keep what they hold.
* `reset_eq_blank`: a reset message has its zero value in every field.
-/

namespace PushGate

/-- A decoded push. -/
structure Message where
  toUserName : String := ""
  fromUserName : String := ""
  createTime : Int64 := 0
  msgType : String := ""
  content : String := ""
  msgId : Int64 := 0
  picUrl : String := ""
  mediaId : String := ""
  format : String := ""
  recognition : String := ""
  thumbMediaId : String := ""
  locationX : Binary64 := .zero
  locationY : Binary64 := .zero
  scale : Int32 := 0
  label : String := ""
  title : String := ""
  description : String := ""
  url : String := ""
  event : String := ""
  eventKey : String := ""
  ticket : String := ""
  latitude : Binary64 := .zero
  longitude : Binary64 := .zero
  precision : Binary64 := .zero
  status : String := ""
  totalCount : Int32 := 0
  filterCount : Int32 := 0
  sentCount : Int32 := 0
  errorCount : Int32 := 0
deriving DecidableEq

/-- The fields that hold text. -/
inductive TextField where
  | toUserName
  | fromUserName
  | msgType
  | content
  | picUrl
  | mediaId
  | format
  | recognition
  | thumbMediaId
  | label
  | title
  | description
  | url
  | event
  | eventKey
  | ticket
  | status
deriving DecidableEq

/-- The fields that hold a number of 64 bits. -/
inductive Int64Field where
  | createTime
  | msgId
deriving DecidableEq

/-- The fields that hold a number of 32 bits. -/
inductive Int32Field where
  | scale
  | totalCount
  | filterCount
  | sentCount
  | errorCount
deriving DecidableEq

/-- The fields that hold a floating-point number. -/
inductive RealField where
  | locationX
  | locationY
  | latitude
  | longitude
  | precision
deriving DecidableEq

/-- The fields that hold a number. -/
inductive NumberField where
  | int64 (f : Int64Field)
  | int32 (f : Int32Field)
  | real (f : RealField)
deriving DecidableEq

inductive Field where
  | text (f : TextField)
  | number (f : NumberField)
deriving DecidableEq

namespace Message

/-- The message with every field at its zero value. -/
def blank : Message := {}

def text (m : Message) : TextField → String
  | .toUserName => m.toUserName
  | .fromUserName => m.fromUserName
  | .msgType => m.msgType
  | .content => m.content
  | .picUrl => m.picUrl
  | .mediaId => m.mediaId
  | .format => m.format
  | .recognition => m.recognition
  | .thumbMediaId => m.thumbMediaId
  | .label => m.label
  | .title => m.title
  | .description => m.description
  | .url => m.url
  | .event => m.event
  | .eventKey => m.eventKey
  | .ticket => m.ticket
  | .status => m.status

def setText (m : Message) (f : TextField) (value : String) : Message :=
  match f with
  | .toUserName => { m with toUserName := value }
  | .fromUserName => { m with fromUserName := value }
  | .msgType => { m with msgType := value }
  | .content => { m with content := value }
  | .picUrl => { m with picUrl := value }
  | .mediaId => { m with mediaId := value }
  | .format => { m with format := value }
  | .recognition => { m with recognition := value }
  | .thumbMediaId => { m with thumbMediaId := value }
  | .label => { m with label := value }
  | .title => { m with title := value }
  | .description => { m with description := value }
  | .url => { m with url := value }
  | .event => { m with event := value }
  | .eventKey => { m with eventKey := value }
  | .ticket => { m with ticket := value }
  | .status => { m with status := value }

def int64 (m : Message) : Int64Field → Int64
  | .createTime => m.createTime
  | .msgId => m.msgId

def setInt64 (m : Message) (f : Int64Field) (value : Int64) : Message :=
  match f with
  | .createTime => { m with createTime := value }
  | .msgId => { m with msgId := value }

def int32 (m : Message) : Int32Field → Int32
  | .scale => m.scale
  | .totalCount => m.totalCount
  | .filterCount => m.filterCount
  | .sentCount => m.sentCount
  | .errorCount => m.errorCount

def setInt32 (m : Message) (f : Int32Field) (value : Int32) : Message :=
  match f with
  | .scale => { m with scale := value }
  | .totalCount => { m with totalCount := value }
  | .filterCount => { m with filterCount := value }
  | .sentCount => { m with sentCount := value }
  | .errorCount => { m with errorCount := value }

def real (m : Message) : RealField → Binary64
  | .locationX => m.locationX
  | .locationY => m.locationY
  | .latitude => m.latitude
  | .longitude => m.longitude
  | .precision => m.precision

def setReal (m : Message) (f : RealField) (value : Binary64) : Message :=
  match f with
  | .locationX => { m with locationX := value }
  | .locationY => { m with locationY := value }
  | .latitude => { m with latitude := value }
  | .longitude => { m with longitude := value }
  | .precision => { m with precision := value }

def clear (m : Message) : Field → Message
  | .text f => m.setText f ""
  | .number (.int64 f) => m.setInt64 f 0
  | .number (.int32 f) => m.setInt32 f 0
  | .number (.real f) => m.setReal f .zero

end Message

def TextField.all : List TextField :=
  [.toUserName, .fromUserName, .msgType, .content, .picUrl, .mediaId, .format, .recognition,
    .thumbMediaId, .label, .title, .description, .url, .event, .eventKey, .ticket, .status]

def Int64Field.all : List Int64Field :=
  [.createTime, .msgId]

def Int32Field.all : List Int32Field :=
  [.scale, .totalCount, .filterCount, .sentCount, .errorCount]

def RealField.all : List RealField :=
  [.locationX, .locationY, .latitude, .longitude, .precision]

def NumberField.all : List NumberField :=
  Int64Field.all.map .int64 ++ Int32Field.all.map .int32 ++ RealField.all.map .real

def Field.all : List Field :=
  TextField.all.map .text ++ NumberField.all.map .number

namespace Message

def reset (m : Message) : Message :=
  Field.all.foldl clear m

/-! ## What the fields hold -/

theorem text_setText (m : Message) (f g : TextField) (value : String) :
    (m.setText f value).text g = if g = f then value else m.text g := by
  cases f <;> cases g <;> rfl

theorem int64_setInt64 (m : Message) (f g : Int64Field) (value : Int64) :
    (m.setInt64 f value).int64 g = if g = f then value else m.int64 g := by
  cases f <;> cases g <;> rfl

theorem int32_setInt32 (m : Message) (f g : Int32Field) (value : Int32) :
    (m.setInt32 f value).int32 g = if g = f then value else m.int32 g := by
  cases f <;> cases g <;> rfl

theorem real_setReal (m : Message) (f g : RealField) (value : Binary64) :
    (m.setReal f value).real g = if g = f then value else m.real g := by
  cases f <;> cases g <;> rfl

/-- A reset message has its zero value in every field. -/
@[simp] theorem reset_eq_blank (m : Message) : m.reset = blank := rfl

end Message

theorem TextField.mem_all (f : TextField) : f ∈ TextField.all := by
  cases f <;> decide

theorem NumberField.mem_all (f : NumberField) : f ∈ NumberField.all := by
  rcases f with f | f | f <;> cases f <;> decide

theorem Field.mem_all (f : Field) : f ∈ Field.all := by
  cases f with
  | text f => exact List.mem_append_left _ (List.mem_map_of_mem f.mem_all)
  | number f => exact List.mem_append_right _ (List.mem_map_of_mem f.mem_all)

end PushGate
