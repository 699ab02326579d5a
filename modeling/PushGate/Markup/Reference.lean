import PushGate.Text.Hexadecimal
import PushGate.Text.Quoted
import PushGate.Utf8

/-!
# References

In character data an ampersand begins a reference that a semicolon ends.  Between them stands the
name of one of five characters, or `#` and a code point in decimal, or `#x` and one in hexadecimal.
Faults tell where they stand in bytes from the beginning of the text.

**Results.**
* `resolve_plain`: text without an ampersand stands for itself.
-/

namespace PushGate
namespace Markup
namespace Reference

/-- What can be wrong with a reference. -/
inductive Error where
  /-- No semicolon before the next ampersand or the end of the text. -/
  | unterminated (start stop : Nat)
  /-- More than six hexadecimal digits. -/
  | longHexadecimal
  /-- More than seven decimal digits. -/
  | longDecimal
  /-- A byte that is no hexadecimal digit, as the character of its value. -/
  | badHexadecimal (byte : Char)
  /-- A byte that is no decimal digit, as the character of its value. -/
  | badDecimal (byte : Char)
  | null (start stop : Nat)
  /-- A number that is no code point of a character. -/
  | noCharacter (code : Nat)
  /-- A name that is none of the five. -/
  | unknown (start stop : Nat) (name : String)
deriving DecidableEq

def Error.message : Error → String
  | .unterminated start stop =>
      s!"Error while escaping character at range {start}..{stop}: Cannot find ';' after '&'"
  | .longHexadecimal => "Cannot convert hexadecimal to utf8"
  | .longDecimal => "Cannot convert decimal to utf8"
  | .badHexadecimal byte => s!"'{byte}' is not a valid hexadecimal character"
  | .badDecimal byte => s!"'{byte}' is not a valid decimal character"
  | .null start stop =>
      s!"Error while escaping character at range {start}..{stop}: Null character entity not allowed"
  | .noCharacter code => s!"'{code}' is not a valid codepoint"
  | .unknown start stop name =>
      s!"Error while escaping character at range {start}..{stop}: Unrecognized escape symbol: " ++
        Text.quote name

def named? (name : List Char) : Option Char :=
  if name = "lt".toList then some '<'
  else if name = "gt".toList then some '>'
  else if name = "amp".toList then some '&'
  else if name = "apos".toList then some '\''
  else if name = "quot".toList then some '\"'
  else none

def decimal? (c : Char) : Option Nat :=
  if c.isDigit then some (c.toNat - 0x30) else none

/-- The number that digits make in a base, after those that made `value`; the first character
that is no digit is the fault. -/
def number (digit? : Char → Option Nat) (base value : Nat) : List Char → Except Char Nat
  | [] => .ok value
  | c :: text =>
      match digit? c with
      | some d => number digit? base (base * value + d) text
      | none => .error c

/-- The code point that a text after `#` gives.  Its length and digits are those of its bytes,
each taken as the character of its value. -/
def code (text : List Char) : Except Error Nat :=
  match (Utf8.encode text).map fun b => Char.ofNat b.toNat with
  | 'x' :: digits =>
      if 6 < digits.length then .error .longHexadecimal
      else (number Hexadecimal.value? 16 0 digits).mapError .badHexadecimal
  | digits =>
      if 7 < digits.length then .error .longDecimal
      else (number decimal? 10 0 digits).mapError .badDecimal

/-- The character that a reference stands for, which has `name` between its ampersand at `start`
and its semicolon at `stop`. -/
def character (start stop : Nat) (name : List Char) : Except Error Char :=
  match name with
  | '#' :: text => do
      let n ← code text
      if n = 0 then .error (.null start stop)
      else if n.isValidChar then .ok (Char.ofNat n)
      else .error (.noCharacter n)
  | name =>
      match named? name with
      | some c => .ok c
      | none => .error (.unknown (start + 1) stop (String.ofList name))

/-- Whether a character may stand inside a reference. -/
def isInner (c : Char) : Bool :=
  c != '&' && c != ';'

/-- Replaces the references of a text of `size` bytes, from the byte `index` on, after the
characters `done` (latest first). -/
def resolveFrom (size index : Nat) (done : List Char) : List Char → Except Error (List Char)
  | [] => .ok done.reverse
  | c :: text =>
      if c = '&' then
        match _h : text.dropWhile isInner with
        | ';' :: rest =>
            let name := text.takeWhile isInner
            let stop := index + 1 + (Utf8.encode name).length
            match character index stop name with
            | .ok d => resolveFrom size (stop + 1) (d :: done) rest
            | .error e => .error e
        | _ => .error (.unterminated index size)
      else resolveFrom size (index + c.utf8Size) (c :: done) text
termination_by text => text.length
decreasing_by
  · have := (List.dropWhile_sublist isInner (l := text)).length_le
    rw [_h] at this
    simp only [List.length_cons] at this ⊢
    omega
  · simp

/-- A text with its references replaced, or the first fault. -/
def resolve (text : List Char) : Except Error (List Char) :=
  resolveFrom (Utf8.encode text).length 0 [] text

/-! ## Text without references -/

theorem resolveFrom_plain (size index : Nat) (done text : List Char) (h : '&' ∉ text) :
    resolveFrom size index done text = .ok (done.reverse ++ text) := by
  induction text generalizing index done with
  | nil => simp [resolveFrom]
  | cons c text ih =>
      simp only [List.mem_cons, not_or] at h
      rw [resolveFrom, if_neg (Ne.symm h.1), ih _ _ h.2]
      simp

/-- Text without an ampersand stands for itself. -/
theorem resolve_plain (text : List Char) (h : '&' ∉ text) : resolve text = .ok text :=
  resolveFrom_plain _ _ _ _ h

end Reference
end Markup
end PushGate
