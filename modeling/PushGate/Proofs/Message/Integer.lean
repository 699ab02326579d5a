import PushGate.Proofs.Decimal.Spelling
import PushGate.Proofs.Message.Value

/-!
# Fields that hold whole numbers

Seven fields hold whole numbers, two of them with 64 bits and five with 32.  A text is read into such
a field exactly if it denotes a number in the range of the field's type, and the field then holds this
number: nothing wraps around, and nothing is cut to the nearest bound.

**Results.**
* `ofTag_eq_some_field_iff`: which elements belong to a field.
* `parse?_eq_some_iff`: what is read of a text is the number that it denotes.
* `parse?_eq_none_iff`: nothing is read exactly if no number in range is denoted.
-/

namespace PushGate

/-- The fields that hold whole numbers. -/
inductive IntegerField where
  | int64 (f : Int64Field)
  | int32 (f : Int32Field)

namespace IntegerField

def number : IntegerField → NumberField
  | .int64 f => .int64 f
  | .int32 f => .int32 f

/-- The field among all fields. -/
def field (f : IntegerField) : Field :=
  .number f.number

/-- The names of a field's elements.  The message number has two. -/
def tags : IntegerField → List String
  | .int64 .createTime => ["CreateTime"]
  | .int64 .msgId => ["MsgId", "MsgID"]
  | .int32 .scale => ["Scale"]
  | .int32 .totalCount => ["TotalCount"]
  | .int32 .filterCount => ["FilterCount"]
  | .int32 .sentCount => ["SentCount"]
  | .int32 .errorCount => ["ErrorCount"]

/-- The least number of the field's type. -/
def least : IntegerField → Int
  | .int64 _ => -0x8000000000000000
  | .int32 _ => -0x80000000

/-- The greatest number of the field's type. -/
def greatest : IntegerField → Int
  | .int64 _ => 0x7FFFFFFFFFFFFFFF
  | .int32 _ => 0x7FFFFFFF

/-- The numbers of the field's type. -/
def InRange (f : IntegerField) (n : Int) : Prop :=
  f.least ≤ n ∧ n ≤ f.greatest

instance (f : IntegerField) (n : Int) : Decidable (f.InRange n) :=
  inferInstanceAs (Decidable (_ ∧ _))

/-- The number that a value of the field's type is. -/
def toInt : (f : IntegerField) → f.number.Carrier → Int
  | .int64 _, value => Int64.toInt value
  | .int32 _, value => Int32.toInt value

/-- The value of the field's type that a number in range is. -/
def ofInt : (f : IntegerField) → Int → f.number.Carrier
  | .int64 _, n => Int64.ofInt n
  | .int32 _, n => Int32.ofInt n

end IntegerField

/-- The number in a field. -/
def Message.integer (m : Message) (f : IntegerField) : Int :=
  f.toInt (m.get f.field)

namespace IntegerField

open Decimal (Denotes signed? within? signed?_trim_eq_some_iff within?_eq_some_iff)

variable {f : IntegerField} {content : List Char} {n : Int}

/-- An element belongs to a field exactly if its name is in the field's list. -/
theorem ofTag_eq_some_field_iff {name : Bytes} :
    Field.ofTag name = some f.field ↔ ∃ tag ∈ f.tags, name = Utf8.ofString tag := by
  rw [Field.ofTag_eq_some_iff]
  cases f with
  | int64 f =>
      cases f <;> simp [tags, field, number, Field.tag, NumberField.tag, Field.msgId, Field.msgIdAlias]
  | int32 f =>
      cases f <;> simp [tags, field, number, Field.tag, NumberField.tag, Field.msgId]

/-- A field holds numbers of its type. -/
theorem inRange_toInt (value : f.number.Carrier) :
    f.InRange (f.toInt value) := by
  cases f with
  | int64 f => exact ⟨Int64.le_toInt value, Int.le_of_lt_add_one (Int64.toInt_lt value)⟩
  | int32 f => exact ⟨Int32.le_toInt value, Int.le_of_lt_add_one (Int32.toInt_lt value)⟩

theorem toInt_ofInt (h : f.InRange n) :
    f.toInt (f.ofInt n) = n := by
  cases f with
  | int64 f => exact Int64.toInt_ofInt_of_le h.1 (Int.lt_add_one_of_le h.2)
  | int32 f => exact Int32.toInt_ofInt_of_le h.1 (Int.lt_add_one_of_le h.2)

theorem ofInt_toInt (value : f.number.Carrier) :
    f.ofInt (f.toInt value) = value := by
  cases f with
  | int64 f => exact Int64.ofInt_toInt value
  | int32 f => exact Int32.ofInt_toInt value

/-- Reading a number into a field, for fields of both types. -/
theorem parse?_eq :
    f.number.parse? content =
      ((signed? (Text.trim content)).bind (within? f.least f.greatest)).map f.ofInt := by
  cases f with
  | int64 f => rfl
  | int32 f => rfl

/-- What is read of a text is the number that the text denotes. -/
theorem parse?_eq_some_iff
    {value : f.number.Carrier} :
    f.number.parse? content = some value ↔ Denotes content (f.toInt value) := by
  rw [parse?_eq, Option.map_eq_some_iff]
  constructor
  · rintro ⟨n, hn, rfl⟩
    obtain ⟨m, hm, hwithin⟩ := Option.bind_eq_some_iff.1 hn
    obtain ⟨rfl, hrange⟩ := within?_eq_some_iff.1 hwithin
    rw [toInt_ofInt hrange]
    exact signed?_trim_eq_some_iff.1 hm
  · intro hdenotes
    refine ⟨f.toInt value, Option.bind_eq_some_iff.2 ⟨_, signed?_trim_eq_some_iff.2 hdenotes, ?_⟩,
      ofInt_toInt value⟩
    exact within?_eq_some_iff.2 ⟨rfl, inRange_toInt value⟩

theorem parse?_of_denotes
    (h : Denotes content n)
    (hrange : f.InRange n) :
    f.number.parse? content = some (f.ofInt n) := by
  rwa [parse?_eq_some_iff, toInt_ofInt hrange]

/-- Nothing is read exactly if no number in range is denoted. -/
theorem parse?_eq_none_iff :
    f.number.parse? content = none ↔ ¬ ∃ n, Denotes content n ∧ f.InRange n := by
  constructor
  · rintro hnone ⟨n, hdenotes, hrange⟩
    rw [← toInt_ofInt hrange] at hdenotes
    rw [parse?_eq_some_iff.2 hdenotes] at hnone
    cases hnone
  · intro hnot
    cases hparse : f.number.parse? content with
    | none => rfl
    | some value => exact absurd ⟨_, parse?_eq_some_iff.1 hparse, inRange_toInt value⟩ hnot

/-- A field into which a number is put holds that number. -/
theorem integer_set
    (m : Message)
    (value : f.number.Carrier) :
    (m.set f.field value).integer f = f.toInt value :=
  congrArg f.toInt (m.get_set_self f.field value)

end IntegerField
end PushGate
