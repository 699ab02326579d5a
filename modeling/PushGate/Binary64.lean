import PushGate.Decimal

/-!
# Binary floating point of 64 bits

Coordinates arrive in decimal and are kept in the usual binary format of 64 bits, rounded to the
nearest value, a tie to the one with the even last bit.  The rounding is done on whole numbers, so
nothing depends on the arithmetic of the machine.

**Rounding.**  A positive quotient is measured in units of `2 ^ k`, where `k` is the exponent that
leaves 53 significant bits, or `-1074` where that is larger.  The number of units, rounded, and `k`
make up the bit pattern by one formula, which also carries correctly when the rounded number of
units reaches `2 ^ 53`.

**Exponents.**  A text may give an exponent of any length, which its leading or trailing zeros may
make good again.  An exponent is read up to the first digit that takes it past `0xFFFF` only.

**Results.**
* `exponentValue_eq`: an exponent that stays below that bound has the value of its digits.
* `roundHalfEven_near`: the rounded quotient is within half a unit.
-/

namespace PushGate

/-- A floating-point number, given by its bit pattern, so that values compare bit for bit. -/
structure Binary64 where
  bits : UInt64
deriving DecidableEq

namespace Binary64

def zero : Binary64 := ⟨0⟩

def infinityBits : Nat := 0x7FF0000000000000

/-- Magnitude bits of the quiet number that is none. -/
def nanBits : Nat := 0x7FF8000000000000

/-- A value from its sign and the bits of its magnitude. -/
def ofMagnitude (negative : Bool) (magnitude : Nat) : Binary64 :=
  ⟨UInt64.ofNat (if negative then 0x8000000000000000 + magnitude else magnitude)⟩

def isNaN (x : Binary64) : Bool :=
  infinityBits < x.bits.toNat % 0x8000000000000000

/-- The quotient of two whole numbers, rounded to the nearest, a tie to the even one. -/
def roundHalfEven (num den : Nat) : Nat :=
  if 2 * (num % den) < den then num / den
  else if den < 2 * (num % den) then num / den + 1
  else num / den + num / den % 2

/-- `num / den` in units of `2 ^ k`, as a quotient again. -/
def inUnits (num den : Nat) (k : Int) : Nat × Nat :=
  if 0 ≤ k then (num, den * Nat.pow 2 k.toNat) else (num * Nat.pow 2 (-k).toNat, den)

/-- The exponent of the unit in which `num / den` has 53 significant bits, or that of the smallest
unit there is. -/
def unitExponent (num den : Nat) : Int :=
  let k : Int := num.log2 - den.log2 - 53
  let (n, d) := inUnits num den k
  max (-1074) (if n / d < 0x20000000000000 then k else k + 1)

/-- The magnitude bits of the value nearest to `num / den`. -/
def nearest (num den : Nat) : Nat :=
  if num = 0 then 0
  else
    let k := unitExponent num den
    let (n, d) := inUnits num den k
    min infinityBits ((k + 1074).toNat * 0x10000000000000 + roundHalfEven n d)

/-- The magnitude bits of the value nearest to the digits read as a whole number, times ten to
`exponent`.  Numbers beyond the range of the format are settled by where their first digit
stands, so that no power is larger than the digits ask for. -/
def ofScientific (digits : List Char) (exponent : Int) : Nat :=
  let significant := digits.dropWhile (· == '0')
  let mantissa := Decimal.value significant
  let scale := significant.length + exponent
  if significant = [] then 0
  else if 309 < scale then infinityBits
  else if scale < -323 then 0
  else if 0 ≤ exponent then nearest (mantissa * Nat.pow 10 exponent.toNat) 1
  else nearest mantissa (Nat.pow 10 (-exponent).toNat)

/-- The value of the digits of an exponent.  It is settled by the first digit that takes it past
`0xFFFF`; the digits after that one do not count. -/
def exponentValue (text : List Char) : Nat :=
  text.foldl (fun n c => if n < 0x10000 then 10 * n + (c.toNat - 0x30) else n) 0

/-- The value of an exponent of one or more digits. -/
def exponentDigits? (text : List Char) : Option Nat :=
  if text ≠ [] ∧ text.all Char.isDigit then some (exponentValue text) else none

/-- The exponent part of a number: nothing, or a letter, an optional sign and digits. -/
def exponent? : List Char → Option Int
  | [] => some 0
  | c :: text =>
      if c = 'e' ∨ c = 'E' then
        match text with
        | '+' :: text => (exponentDigits? text).map fun n => (n : Int)
        | '-' :: text => (exponentDigits? text).map fun n => -(n : Int)
        | text => (exponentDigits? text).map fun n => (n : Int)
      else none

/-- The digits after a point, if there is one, and what follows them. -/
def fraction : List Char → List Char × List Char
  | '.' :: text => (text.takeWhile Char.isDigit, text.dropWhile Char.isDigit)
  | text => ([], text)

/-- The magnitude bits of a number in decimal: digits with or without a point, at least one
of them, and an exponent. -/
def decimal? (text : List Char) : Option Nat :=
  let whole := text.takeWhile Char.isDigit
  let (places, rest) := fraction (text.dropWhile Char.isDigit)
  if whole = [] ∧ places = [] then none
  else (exponent? rest).map fun e => ofScientific (whole ++ places) (e - places.length)

/-- The magnitude bits of a number without its sign: a name in either case, or decimal. -/
def magnitude? (text : List Char) : Option Nat :=
  let name := text.map Char.toLower
  if name = "inf".toList ∨ name = "infinity".toList then some infinityBits
  else if name = "nan".toList then some nanBits
  else decimal? text

/-- The value that a text names, after an optional sign. -/
def ofText? : List Char → Option Binary64
  | '+' :: text => (magnitude? text).map (ofMagnitude false)
  | '-' :: text => (magnitude? text).map (ofMagnitude true)
  | text => (magnitude? text).map (ofMagnitude false)

theorem le_ofDigitChars (text : List Char) (n : Nat) : n ≤ Nat.ofDigitChars 10 text n := by
  rw [Nat.ofDigitChars_eq_foldl]
  induction text generalizing n with
  | nil => exact Nat.le_refl n
  | cons c text ih =>
      rw [List.foldl_cons]
      refine Nat.le_trans ?_ (ih _)
      omega

/-- A short exponent has the value of its digits. -/
theorem exponentValue_eq {text : List Char} (h : Nat.ofDigitChars 10 text 0 < 0x10000) :
    exponentValue text = Nat.ofDigitChars 10 text 0 := by
  suffices ∀ n, Nat.ofDigitChars 10 text n < 0x10000 →
      text.foldl (fun n c => if n < 0x10000 then 10 * n + (c.toNat - 0x30) else n) n =
        Nat.ofDigitChars 10 text n from this 0 h
  clear h
  induction text with
  | nil => exact fun n _ => rfl
  | cons c text ih =>
      intro n hn
      have hle := le_ofDigitChars (c :: text) n
      rw [List.foldl_cons, if_pos (by omega)]
      exact ih _ hn

/-- The rounded quotient is within half a unit. -/
theorem roundHalfEven_near (num den : Nat) (h : 0 < den) :
    2 * num ≤ 2 * (roundHalfEven num den * den) + den ∧
      2 * (roundHalfEven num den * den) ≤ 2 * num + den := by
  have hdiv := Nat.div_add_mod num den
  have hmod := Nat.mod_lt num h
  have hmul : den * (num / den) = num / den * den := Nat.mul_comm _ _
  unfold roundHalfEven
  split
  · omega
  split
  · rw [Nat.add_mul]
    omega
  · rw [Nat.add_mul]
    rcases Nat.mod_two_eq_zero_or_one (num / den) with h2 | h2
    · rw [h2]
      omega
    · rw [h2]
      omega

end Binary64
end PushGate
