import PushGate.Proofs.Message.Value

/-!
# Pushes and how they are written

A push, before it is written down, is a list of children, each with a name and with pieces: texts,
CDATA sections, comments, and elements that hold pieces in turn.  A field takes its value from the
last child that bears its name, and from that child only what stands directly in it.

There are many ways to write a push.  Each character of a text may stand for itself, unless it is
one of the two that begin something else, or be written as a reference by name or by number; blanks
may stand before, between and after the children.
-/

namespace PushGate
namespace Push

/-- What can stand in an element. -/
inductive Piece where
  | text (s : List Char)
  | cdata (s : List Char)
  | comment (s : List Char)
  | element (name : List Char) (content : List Piece)

/-- The text that a piece has directly in the element around it. -/
def Piece.own : Piece → List Char
  | .text s => s
  | .cdata s => s
  | .comment _ => []
  | .element _ _ => []

/-- The joined text directly in an element. -/
def direct (content : List Piece) : List Char :=
  content.flatMap Piece.own

/-- A child of the root. -/
structure Child where
  name : List Char
  content : List Piece

namespace Child

/-- The field that a child belongs to. -/
def field (c : Child) : Option Field :=
  Field.ofTag (Utf8.encode c.name)

/-- The text that a child gives to its field. -/
def text (c : Child) : List Char :=
  direct c.content

/-- The child belongs to a numeric field, and its text spells no number of the field's type. -/
def Refused (c : Child) (f : NumberField) : Prop :=
  c.field = some (.number f) ∧ (Field.number f).parse? c.text = none

/-- The child gives its field a value, or belongs to none. -/
def Accepted (c : Child) : Prop :=
  ∀ f, ¬ c.Refused f

end Child

/-- The text of the last child of a field; empty if the field has none. -/
def lastText (children : List Child) (f : Field) : List Char :=
  match children.reverse.find? fun c => c.field = some f with
  | some c => c.text
  | none => []

/-- A message has in each field what the last child of the field says. -/
def Holds (m : Message) (children : List Child) : Prop :=
  ∀ f : Field, f.parse? (lastText children f) = some (m.get f)

/-! ## Writing -/

/-- A name that elements may have: one or more ASCII letters, digits and underscores. -/
def IsName (name : List Char) : Prop :=
  name ≠ [] ∧ ∀ c ∈ name, c.isAlphanum = true ∨ c = '_'

/-- The characters that references can name. -/
def predefined : List (String × Char) :=
  [("lt", '<'), ("gt", '>'), ("amp", '&'), ("apos", '\''), ("quot", '\"')]

/-- The forms of a character in text. -/
inductive WritesChar : Char → List Char → Prop
  | raw
      {c : Char}
      (noReference : c ≠ '&')
      (noTag : c ≠ '<') :
      WritesChar c [c]
  | named
      {c : Char} {name : String}
      (known : (name, c) ∈ predefined) :
      WritesChar c ('&' :: (name.toList ++ [';']))
  | decimal
      {c : Char}
      (notNull : c ≠ '\x00') :
      WritesChar c ('&' :: '#' :: (Nat.toDigits 10 c.toNat ++ [';']))
  | hexadecimal
      {c : Char} {digits : List Char}
      (notNull : c ≠ '\x00')
      (value : digits.map Char.toLower = Nat.toDigits 16 c.toNat) :
      WritesChar c ('&' :: '#' :: 'x' :: (digits ++ [';']))

/-- The forms of a text. -/
inductive WritesText : List Char → List Char → Prop
  | nil : WritesText [] []
  | cons
      {c : Char} {s v w : List Char}
      (first : WritesChar c v)
      (rest : WritesText s w) :
      WritesText (c :: s) (v ++ w)

/-- An element with its tags, given what stands between them. -/
def enclose (name inner : List Char) : List Char :=
  '<' :: (name ++ '>' :: (inner ++ '<' :: '/' :: (name ++ ['>'])))

/-- A CDATA section with its marks. -/
def cdataSection (s : List Char) : List Char :=
  "<![CDATA[".toList ++ (s ++ "]]>".toList)

/-- A comment with its marks. -/
def commentSection (s : List Char) : List Char :=
  "<!--".toList ++ (s ++ "-->".toList)

/-- The forms of the content of an element. -/
inductive Writes : List Piece → List Char → Prop
  | nil : Writes [] []
  | text
      {s v : List Char} {content : List Piece} {w : List Char}
      (first : WritesText s v)
      (rest : Writes content w) :
      Writes (.text s :: content) (v ++ w)
  | cdata
      {s : List Char} {content : List Piece} {w : List Char}
      (noMark : ¬ "]]>".toList <:+: s)
      (rest : Writes content w) :
      Writes (.cdata s :: content) (cdataSection s ++ w)
  | comment
      {s : List Char} {content : List Piece} {w : List Char}
      (noDashes : ¬ "--".toList <:+: s)
      (noClosing : '>' ∉ s)
      (rest : Writes content w) :
      Writes (.comment s :: content) (commentSection s ++ w)
  | element
      {name : List Char} {inner : List Piece} {v : List Char}
      {content : List Piece} {w : List Char}
      (isName : IsName name)
      (first : Writes inner v)
      (rest : Writes content w) :
      Writes (.element name inner :: content) (enclose name v ++ w)

/-- Nothing but blanks. -/
def IsBlank (s : List Char) : Prop :=
  ∀ c ∈ s, Text.isBlank c = true

/-- The forms of the children of the root. -/
inductive WritesChildren : List Child → List Char → Prop
  | nil
      {blanks : List Char}
      (blank : IsBlank blanks) :
      WritesChildren [] blanks
  | cons
      {blanks : List Char} {c : Child} {v : List Char}
      {children : List Child} {w : List Char}
      (blank : IsBlank blanks)
      (isName : IsName c.name)
      (first : Writes c.content v)
      (rest : WritesChildren children w) :
      WritesChildren (c :: children) (blanks ++ (enclose c.name v ++ w))

/-- The whole document, given what stands in the root. -/
def document (inner : List Char) : List Char :=
  enclose "xml".toList inner

end Push
end PushGate
