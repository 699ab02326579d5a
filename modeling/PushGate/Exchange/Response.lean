/-!
# Responses

What a request is answered: a status and, if there is content, its type and text.
-/

namespace PushGate

/-- The types of content that answers have. -/
inductive ContentType where
  | plainText
  | json
deriving DecidableEq

def ContentType.name : ContentType → String
  | .plainText => "text/plain; charset=utf-8"
  | .json => "application/json"

/-- What a request is answered. -/
structure Response where
  status : Nat
  contentType : Option ContentType := none
  /-- The methods that would have been admitted, where the answer tells them. -/
  allow : Option (List String) := none
  body : String := ""
deriving DecidableEq

namespace Response

def empty (status : Nat) : Response :=
  { status := status }

def plainText (status : Nat) (body : String) : Response :=
  { status := status, contentType := some .plainText, body := body }

/-- The same answer, without its content. -/
def headOnly (r : Response) : Response :=
  { r with body := "" }

def allowText (r : Response) : Option String :=
  r.allow.map fun methods => String.intercalate "," methods

end Response

end PushGate
