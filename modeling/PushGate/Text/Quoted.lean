import PushGate.Text.Hexadecimal
import PushGate.Text.Unprintable

/-!
# Quoted text

Messages show a text that came from outside between double quotes, on one line and in printable
characters: the quote, the backslash and the common controls have a short form, every other
character that is not printable is written by its code point.
-/

namespace PushGate
namespace Text

/-- The written form of one character between the quotes. -/
def quoteChar (c : Char) : List Char :=
  match c with
  | '\x00' => ['\\', '0']
  | '\t' => ['\\', 't']
  | '\r' => ['\\', 'r']
  | '\n' => ['\\', 'n']
  | '\\' => ['\\', '\\']
  | '\"' => ['\\', '\"']
  | c =>
      if isUnprintable c then ['\\', 'u', '\x7b'] ++ Hexadecimal.ofNat c.toNat ++ ['\x7d']
      else [c]

/-- A text between double quotes. -/
def quote (text : String) : String :=
  String.ofList ('\"' :: text.toList.flatMap quoteChar ++ ['\"'])

end Text
end PushGate
