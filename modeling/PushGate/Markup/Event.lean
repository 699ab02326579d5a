import PushGate.Markup.Reference

/-!
# Markup events

What a reader of markup finds in a document, one piece after the other: tags, character data,
CDATA sections, and the pieces that carry no content.  Names and contents are kept as the bytes
that stand in the document.
-/

namespace PushGate
namespace Markup

/-- One piece of a document. -/
inductive Event where
  /-- A start tag, with the element's name. -/
  | start (name : Bytes)
  /-- The tag of an element without content. -/
  | empty (name : Bytes)
  /-- An end tag, with the name of the element that it closes. -/
  | stop (name : Bytes)
  /-- Character data, with its references as written. -/
  | text (content : Bytes)
  | cdata (content : Bytes)
  | comment
  /-- A processing instruction or declaration. -/
  | instruction
  | doctype
deriving DecidableEq

/-- The pieces that can break off at the end of the input. -/
inductive Construct where
  | bang
  | comment
  | cdata
  | doctype
  | instruction
  | element
deriving DecidableEq

/-- How a fault calls a construct. -/
def Construct.name : Construct → String
  | .bang => "Bang"
  | .comment => "Comment"
  | .cdata => "CData"
  | .doctype => "DOCTYPE"
  | .instruction => "XmlDecl"
  | .element => "Element"

/-- What can be wrong with a document, or with the character data of an element. -/
inductive Error where
  /-- The input ends inside a construct, or does not begin it as it must. -/
  | unexpectedEnd (of : Construct)
  /-- A byte after `<!` that begins none of the three constructs. -/
  | unexpectedBang (byte : UInt8)
  /-- A document type declaration that names nothing. -/
  | emptyDoctype
  /-- An end tag that does not close the innermost open element. -/
  | endMismatch (expected found : Bytes)
  /-- Character data that is not UTF-8. -/
  | notUtf8 (fault : Utf8.Error)
  /-- Character data with a faulty reference. -/
  | badReference (fault : Reference.Error)
deriving DecidableEq

/-- A name as faults show it: empty if it is not UTF-8. -/
def showName (name : Bytes) : String :=
  (Utf8.string? name).getD ""

def Error.message : Error → String
  | .unexpectedEnd of => s!"Unexpected EOF during reading {of.name}"
  | .unexpectedBang byte =>
      "Only Comment (\x60--\x60), CDATA (\x60[CDATA[\x60) and DOCTYPE (\x60DOCTYPE\x60) nodes can" ++
        " start with a '!', but symbol \x60" ++ String.singleton (Char.ofNat byte.toNat) ++
        "\x60 found"
  | .emptyDoctype => "DOCTYPE declaration must not be empty"
  | .endMismatch expected found =>
      s!"Expecting </{showName expected}> found </{showName found}>"
  | .notUtf8 fault => s!"Malformed UTF-8 input: {fault.message}"
  | .badReference fault => fault.message

/-- The part of a name after its first colon, or all of it. -/
def localName (name : Bytes) : Bytes :=
  match name.dropWhile (· != 0x3A) with
  | _ :: rest => rest
  | [] => name

/-- The text that character data stands for. -/
def characterData (content : Bytes) : Except Error (List Char) := do
  let text ← (Utf8.decode content).mapError .notUtf8
  (Reference.resolve text).mapError .badReference

end Markup
end PushGate
