/-!
# Whole numbers in decimal

A number in text is an optional sign and one or more ASCII digits, with any number of leading
zeros; signed numbers admit either sign, unsigned ones only a plus.  A text that is no number, or
whose number lies outside the range asked for, has no value.

**Long numbers.**  Texts come from outside and may hold a million digits.  Their value is therefore
not built digit by digit: neighbouring digits are joined to digits of the square of the base, and
so on until one is left.

**Results.**
* `value_eq`: joining by pairs gives the value of the digits.
* `digits?_eq_some_iff`: a digit text is non-empty and of digits only, and has their value.
* `unsigned?_toDigits`, `signed?_toDigits`: a number written in decimal reads back as itself.
* `within?_eq_some_iff`: a bounded number is the number, if it lies within the bounds.
-/

namespace PushGate
namespace Decimal

/-- Digits of a base, the least significant first, joined to digits of its square, after the
joined ones `done` (latest first). -/
def joinPairs (base : Nat) (done : List Nat) : List Nat → List Nat
  | a :: b :: rest => joinPairs base ((a + base * b) :: done) rest
  | [a] => (a :: done).reverse
  | [] => done.reverse

theorem length_joinPairs (base : Nat) (done digits : List Nat) :
    (joinPairs base done digits).length = done.length + (digits.length + 1) / 2 := by
  fun_induction joinPairs base done digits with
  | case1 done a b rest ih =>
      rw [ih]
      simp only [List.length_cons]
      omega
  | case2 done a => simp
  | case3 done => simp

/-- The number that digits of a base make, the least significant first. -/
def ofDigits (base : Nat) : List Nat → Nat
  | [] => 0
  | [a] => a
  | a :: b :: rest => ofDigits (base * base) (joinPairs base [] (a :: b :: rest))
termination_by digits => digits.length
decreasing_by
  rw [length_joinPairs]
  simp only [List.length_cons, List.length_nil]
  omega

/-- The value of a text of digits. -/
def value (text : List Char) : Nat :=
  ofDigits 10 (text.reverse.map fun c => c.toNat - 0x30)

/-- The value of a text of one or more digits. -/
def digits? (text : List Char) : Option Nat :=
  if text ≠ [] ∧ text.all Char.isDigit then some (value text) else none

/-- The value of digits after an optional plus. -/
def unsigned? : List Char → Option Nat
  | '+' :: text => digits? text
  | text => digits? text

/-- The value of digits after an optional sign. -/
def signed? : List Char → Option Int
  | '+' :: text => (digits? text).map fun n => (n : Int)
  | '-' :: text => (digits? text).map fun n => -(n : Int)
  | text => (digits? text).map fun n => (n : Int)

/-- The number, if it lies between the bounds, ends included. -/
def within? (low high : Int) (n : Int) : Option Int :=
  if low ≤ n ∧ n ≤ high then some n else none

def int64? (text : List Char) : Option Int64 :=
  ((signed? text).bind (within? (-0x8000000000000000) 0x7FFFFFFFFFFFFFFF)).map Int64.ofInt

def int32? (text : List Char) : Option Int32 :=
  ((signed? text).bind (within? (-0x80000000) 0x7FFFFFFF)).map Int32.ofInt

/-- An unsigned number that is at most `high`. -/
def atMost? (high : Nat) (text : List Char) : Option Nat :=
  (unsigned? text).filter fun n => n ≤ high

def uint16? (text : List Char) : Option UInt16 :=
  (atMost? 0xFFFF text).map UInt16.ofNat

def uint64? (text : List Char) : Option UInt64 :=
  (atMost? 0xFFFFFFFFFFFFFFFF text).map UInt64.ofNat

/-! ## The value of digits -/

/-- The number that digits make, digit by digit, above a number of higher digits. -/
def horner (base high : Nat) (digits : List Nat) : Nat :=
  digits.foldr (fun d n => d + base * n) high

theorem horner_joinPairs (base : Nat) (done digits : List Nat) :
    horner (base * base) 0 (joinPairs base done digits) =
      horner (base * base) (horner base 0 digits) done.reverse := by
  fun_induction joinPairs base done digits with
  | case1 done a b rest ih =>
      rw [ih, List.reverse_cons]
      simp only [horner, List.foldr_append, List.foldr_cons, List.foldr_nil]
      rw [Nat.mul_add, Nat.mul_assoc, Nat.add_assoc]
  | case2 done a => simp [horner]
  | case3 done => simp [horner]

theorem ofDigits_eq (base : Nat) (digits : List Nat) :
    ofDigits base digits = horner base 0 digits := by
  fun_induction ofDigits base digits with
  | case1 => rfl
  | case2 base a => simp [horner]
  | case3 base a b rest ih =>
      rw [ih, horner_joinPairs]
      rfl

/-- Joining by pairs gives the value of the digits. -/
theorem value_eq (text : List Char) : value text = Nat.ofDigitChars 10 text 0 := by
  rw [value, ofDigits_eq, horner, Nat.ofDigitChars_eq_foldl, List.foldr_map, List.foldr_reverse]
  congr 1
  funext n c
  exact Nat.add_comm _ _

/-! ## Which texts are numbers -/

theorem digits?_eq_some_iff {text : List Char} {n : Nat} :
    digits? text = some n ↔
      text ≠ [] ∧ (∀ c ∈ text, c.isDigit = true) ∧ Nat.ofDigitChars 10 text 0 = n := by
  simp [digits?, value_eq, and_assoc]

theorem within?_eq_some_iff {low high m n : Int} :
    within? low high m = some n ↔ m = n ∧ low ≤ n ∧ n ≤ high := by
  unfold within?
  split <;> grind

theorem isDigit_of_mem_toDigits {n : Nat} {c : Char} (h : c ∈ Nat.toDigits 10 n) :
    c.isDigit = true :=
  Nat.isDigit_of_mem_toDigits (by decide) (by decide) h

/-- A number written in decimal has its own value. -/
theorem digits?_toDigits (n : Nat) : digits? (Nat.toDigits 10 n) = some n :=
  digits?_eq_some_iff.2
    ⟨Nat.toDigits_ne_nil, fun _ => isDigit_of_mem_toDigits, Nat.ofDigitChars_ten_toDigits⟩

theorem unsigned?_of_digits {text : List Char} (h : ∀ c ∈ text, c.isDigit = true) :
    unsigned? text = digits? text := by
  unfold unsigned?
  split
  · have := h '+' (by simp)
    simp at this
  · rfl

theorem signed?_of_digits {text : List Char} (h : ∀ c ∈ text, c.isDigit = true) :
    signed? text = (digits? text).map fun n => (n : Int) := by
  unfold signed?
  split
  · have := h '+' (by simp)
    simp at this
  · have := h '-' (by simp)
    simp at this
  · rfl

/-- An unsigned number written in decimal reads back as itself. -/
@[simp] theorem unsigned?_toDigits (n : Nat) : unsigned? (Nat.toDigits 10 n) = some n := by
  rw [unsigned?_of_digits fun _ => isDigit_of_mem_toDigits, digits?_toDigits]

/-- A number without a sign reads as itself, and after a minus as its negative. -/
@[simp] theorem signed?_toDigits (n : Nat) :
    signed? (Nat.toDigits 10 n) = some (n : Int) ∧
      signed? ('-' :: Nat.toDigits 10 n) = some (-(n : Int)) := by
  constructor
  · rw [signed?_of_digits fun _ => isDigit_of_mem_toDigits, digits?_toDigits]
    rfl
  · simp [signed?, digits?_toDigits]

end Decimal
end PushGate
