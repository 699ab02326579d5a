import PushGate.Utf8

/-!
# Requests

Of a request the gateway sees the head (method, path and query) and the body, which arrives in
chunks: bytes, a failure of the connection, or nothing any more while the connection stays open.
-/

namespace PushGate

structure Head where
  method : String
  path : String
  /-- What stands behind the first question mark, if there is one. -/
  query : Option Bytes
deriving DecidableEq

/-- Whether a character may stand in the scheme of an address: a letter, a digit or one of four
marks. -/
def isSchemeChar (c : Char) : Bool :=
  c.isAlphanum || c == '+' || c == '-' || c == '.' || c == '~'

/-- What follows the scheme and the authority of an absolute address, if a text is one. -/
def afterAuthority? (text : List Char) : Option (List Char) :=
  match text.dropWhile isSchemeChar with
  | ':' :: '/' :: '/' :: rest => some (rest.dropWhile fun c => c != '/' && c != '?')
  | _ => none

/-- The head of a request for a path and, behind the first question mark, a query. -/
def Head.ofLocal (method : String) (text : List Char) : Head :=
  let path := String.ofList (text.takeWhile (· != '?'))
  match text.dropWhile (· != '?') with
  | [] => ⟨method, path, none⟩
  | _ :: query => ⟨method, path, some (Utf8.encode query)⟩

/-- The head of a request for a target.  That is a path, with or without a query; a star by itself;
an absolute address, whose path is the slash if it gives none; or an authority by itself, which has
no path.  A fragment, which begins at the first number sign, is no part of it. -/
def Head.ofTarget (method target : String) : Head :=
  let text := target.toList.takeWhile (· != '#')
  if text.head? = some '/' ∨ text = ['*'] then .ofLocal method text
  else
    match afterAuthority? text with
    | none => ⟨method, "", none⟩
    | some rest =>
        .ofLocal method (if rest.head? = some '/' then rest else '/' :: rest)

/-- A piece of a body in transit. -/
inductive Chunk where
  | data (bytes : Bytes)
  /-- The connection fails, with a text that says why. -/
  | failure (cause : String)
  /-- Nothing more comes. -/
  | stalled
deriving DecidableEq

structure Exchange where
  head : Head
  body : List Chunk
deriving DecidableEq

end PushGate
