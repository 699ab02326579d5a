import PushGate.Message.Tag

/-!
# The values of fields

Each field of a message holds a value of its own type.  With the type read off the field, there is
one way to look a value up, one to put it there, and one to read it from the text that stands for
it in a push: the text itself, or the number that it spells, where no text at all is the zero
value.

**Results.**
* `get_set_self`, `get_set_of_ne`: what is put into a field is found there, and nowhere else.
* `get_blank`: a blank message has the zero value in every field.
* `parse?_nil`: no text stands for the value of a blank message.
* `store?_eq`: reading a number into a field.
-/

namespace PushGate

/-- A number in range that is written in decimal reads back as itself. -/
theorem Decimal.int64?_toDigits
    {n : Nat}
    (h : n ≤ 0x7FFFFFFFFFFFFFFF) :
    int64? (Nat.toDigits 10 n) = some (Int64.ofInt n) := by
  have hwithin : within? (-0x8000000000000000) 0x7FFFFFFFFFFFFFFF (n : Int) = some (n : Int) :=
    within?_eq_some_iff.2 ⟨rfl, by omega, by omega⟩
  rw [int64?, (signed?_toDigits n).1, Option.bind_some, hwithin]
  rfl

/-- The type of the numbers that a field holds. -/
def NumberField.Carrier : NumberField → Type
  | .int64 _ => Int64
  | .int32 _ => Int32
  | .real _ => Binary64

/-- The type of the values that a field holds. -/
def Field.Carrier : Field → Type
  | .text _ => String
  | .number f => f.Carrier

/-- The number that a text spells, blanks around it apart. -/
def NumberField.parse? (f : NumberField) (content : List Char) : Option f.Carrier :=
  match f with
  | .int64 _ => Decimal.int64? (Text.trim content)
  | .int32 _ => Decimal.int32? (Text.trim content)
  | .real _ => Binary64.ofText? (Text.trim content)

def NumberField.zero : (f : NumberField) → f.Carrier
  | .int64 _ => (0 : Int64)
  | .int32 _ => (0 : Int32)
  | .real _ => Binary64.zero

/-- The value that a text stands for: itself, or the number that it spells, or zero if it is
empty. -/
def Field.parse? (f : Field) (content : List Char) : Option f.Carrier :=
  match f with
  | .text _ => some (String.ofList content)
  | .number f => if content = [] then some f.zero else f.parse? content

namespace Message

def get (m : Message) : (f : Field) → f.Carrier
  | .text f => m.text f
  | .number (.int64 f) => m.int64 f
  | .number (.int32 f) => m.int32 f
  | .number (.real f) => m.real f

def set (m : Message) (f : Field) (value : f.Carrier) : Message :=
  match f with
  | .text f => m.setText f value
  | .number (.int64 f) => m.setInt64 f value
  | .number (.int32 f) => m.setInt32 f value
  | .number (.real f) => m.setReal f value

section Laws

variable (m : Message)

theorem get_set_self
    (f : Field)
    (value : f.Carrier) :
    (m.set f value).get f = value := by
  rcases f with f | f | f | f
  · exact (text_setText m f f value).trans (if_pos rfl)
  · exact (int64_setInt64 m f f value).trans (if_pos rfl)
  · exact (int32_setInt32 m f f value).trans (if_pos rfl)
  · exact (real_setReal m f f value).trans (if_pos rfl)

/-- A value that is put into a text field leaves the numbers as they are. -/
theorem get_setText_number
    (f : TextField)
    (g : NumberField)
    (value : String) :
    (m.setText f value).get (.number g) = m.get (.number g) := by
  rcases g with g | g | g <;> cases f <;> rfl

theorem get_setInt64_of_ne
    {f : Int64Field}
    {g : Field}
    (value : Int64)
    (h : g ≠ .number (.int64 f)) :
    (m.setInt64 f value).get g = m.get g := by
  rcases g with g | g | g | g
  · cases f <;> rfl
  · exact (int64_setInt64 m f g value).trans (if_neg fun heq => h (by rw [heq]))
  · cases f <;> rfl
  · cases f <;> rfl

theorem get_setInt32_of_ne
    {f : Int32Field}
    {g : Field}
    (value : Int32)
    (h : g ≠ .number (.int32 f)) :
    (m.setInt32 f value).get g = m.get g := by
  rcases g with g | g | g | g
  · cases f <;> rfl
  · cases f <;> rfl
  · exact (int32_setInt32 m f g value).trans (if_neg fun heq => h (by rw [heq]))
  · cases f <;> rfl

theorem get_setReal_of_ne
    {f : RealField}
    {g : Field}
    (value : Binary64)
    (h : g ≠ .number (.real f)) :
    (m.setReal f value).get g = m.get g := by
  rcases g with g | g | g | g
  · cases f <;> rfl
  · cases f <;> rfl
  · cases f <;> rfl
  · exact (real_setReal m f g value).trans (if_neg fun heq => h (by rw [heq]))

theorem get_set_of_ne
    {f g : Field}
    (value : f.Carrier)
    (h : g ≠ f) :
    (m.set f value).get g = m.get g := by
  rcases f with f | f | f | f
  · cases g with
    | text g => exact (text_setText m f g value).trans (if_neg fun heq => h (by rw [heq]))
    | number g => exact get_setText_number m f g value
  · exact get_setInt64_of_ne m value h
  · exact get_setInt32_of_ne m value h
  · exact get_setReal_of_ne m value h

end Laws

end Message

def Field.zero : (f : Field) → f.Carrier
  | .text _ => ""
  | .number f => f.zero

namespace Message

variable (m : Message) (f : Field)

theorem get_blank : blank.get f = f.zero := by
  rcases f with f | f | f | f <;> cases f <;> rfl

theorem clear_eq : m.clear f = m.set f f.zero := by
  rcases f with f | f | f | f <;> rfl

/-- A field that is cleared leaves the others as they are. -/
theorem get_clear_of_ne
    {g : Field}
    (h : g ≠ f) :
    (m.clear f).get g = m.get g := by
  rw [clear_eq, get_set_of_ne m f.zero h]

end Message

/-- No text stands for the value of a blank message. -/
theorem Field.parse?_nil (f : Field) :
    f.parse? [] = some (Message.blank.get f) := by
  rcases f with f | f | f | f <;> cases f <;> rfl

namespace Message

/-- What a field held before does not matter to what is put there. -/
theorem set_clear
    (m : Message)
    (f : Field)
    (value : f.Carrier) :
    (m.clear f).set f value = m.set f value := by
  rcases f with f | f | f | f <;> cases f <;> rfl

/-- A text is read into a numeric field exactly if it spells a number. -/
theorem store?_eq
    (m : Message)
    (f : NumberField)
    (content : String) :
    m.store? f content = (f.parse? content.toList).map (m.set (.number f)) := by
  rcases f with f | f | f <;> rfl

theorem store?_eq_none_iff
    {m : Message}
    {f : NumberField}
    {content : String} :
    m.store? f content = none ↔ f.parse? content.toList = none := by
  rw [store?_eq]
  cases f.parse? content.toList with
  | none => exact ⟨fun _ => rfl, fun _ => rfl⟩
  | some value => exact ⟨fun h => (by cases h), fun h => (by cases h)⟩

end Message
end PushGate
