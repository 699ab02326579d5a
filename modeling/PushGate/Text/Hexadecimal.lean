/-!
# Hexadecimal digits

Digits are written in lowercase and read in either case.

**Results.**
* `value?_digit`: a written digit reads back as its value.
* `value?_toLower`: a digit has the same value in both cases.
* `length_ofBytes`, `mem_ofBytes`: bytes take two digits each, all of `0 .. 9` and `a .. f`.
* `ofBytes_injective`: different byte sequences are written differently.
-/

namespace PushGate
namespace Hexadecimal

/-- The digit of a value below sixteen. -/
def digit (n : Nat) : Char :=
  if n < 10 then Char.ofNat (0x30 + n) else Char.ofNat (0x57 + n)

/-- The value of a digit of either case. -/
def value? (c : Char) : Option Nat :=
  if '0' ≤ c ∧ c ≤ '9' then some (c.toNat - 0x30)
  else if 'a' ≤ c ∧ c ≤ 'f' then some (c.toNat - 0x57)
  else if 'A' ≤ c ∧ c ≤ 'F' then some (c.toNat - 0x37)
  else none

/-- The two digits of a byte. -/
def ofByte (b : UInt8) : List Char :=
  [digit (b.toNat / 16), digit (b.toNat % 16)]

/-- The digits of a byte sequence, two for each byte. -/
def ofBytes (bytes : List UInt8) : List Char :=
  bytes.flatMap ofByte

/-- A number, without leading zeros. -/
def ofNat (n : Nat) : List Char :=
  Nat.toDigits 16 n

/-- A written digit reads back as its value. -/
theorem value?_digit : ∀ n < 16, value? (digit n) = some n := by
  decide

/-- Both cases of a hexadecimal digit have the same value. -/
theorem value?_toLower (c : Char) : value? c.toLower = value? c := by
  rcases Nat.lt_or_ge c.toNat 0x80 with hlt | hge
  · have hascii : ∀ n < 0x80, value? (Char.ofNat n).toLower = value? (Char.ofNat n) := by
      decide
    have := hascii c.toNat hlt
    rwa [Char.ofNat_toNat] at this
  · have hval : c.val.toNat = c.toNat := rfl
    have hlower : c.toLower = c := by
      refine dif_neg ?_
      rintro ⟨-, hle⟩
      rw [UInt32.le_iff_toNat_le, hval] at hle
      have hz : 'Z'.val.toNat = 90 := rfl
      omega
    rw [hlower]

theorem digit_mem : ∀ n < 16, digit n ∈ "0123456789abcdef".toList := by
  decide

@[simp] theorem length_ofBytes (bytes : List UInt8) : (ofBytes bytes).length = 2 * bytes.length := by
  induction bytes with
  | nil => rfl
  | cons b bytes ih =>
      simp only [ofBytes, List.flatMap_cons, List.length_append] at ih ⊢
      simp only [ofByte, List.length_cons, List.length_nil]
      omega

/-- Only the sixteen lowercase digits are written. -/
theorem mem_ofBytes {bytes : List UInt8} {c : Char} (h : c ∈ ofBytes bytes) :
    c ∈ "0123456789abcdef".toList := by
  simp only [ofBytes, List.mem_flatMap, ofByte, List.mem_cons, List.not_mem_nil, or_false] at h
  obtain ⟨b, _, hc⟩ := h
  have hb : b.toNat < 256 := b.toNat_lt
  rcases hc with rfl | rfl
  · exact digit_mem _ (by omega)
  · exact digit_mem _ (by omega)

theorem digit_injective {m n : Nat} (hm : m < 16) (hn : n < 16) (h : digit m = digit n) :
    m = n := by
  have := value?_digit m hm
  rw [h, value?_digit n hn] at this
  exact (Option.some.inj this).symm

/-- Different byte sequences are written differently. -/
theorem ofBytes_injective {s t : List UInt8} (h : ofBytes s = ofBytes t) : s = t := by
  induction s generalizing t with
  | nil =>
      cases t with
      | nil => rfl
      | cons c t => simp [ofBytes, ofByte] at h
  | cons b s ih =>
      cases t with
      | nil => simp [ofBytes, ofByte] at h
      | cons c t =>
          simp only [ofBytes, ofByte, List.flatMap_cons, List.cons_append, List.nil_append,
            List.cons.injEq] at h
          obtain ⟨hhigh, hlow, hrest⟩ := h
          have hb : b.toNat < 256 := b.toNat_lt
          have hc : c.toNat < 256 := c.toNat_lt
          have h1 := digit_injective (by omega) (by omega) hhigh
          have h2 := digit_injective (by omega) (by omega) hlow
          have hbc : b = c := UInt8.toNat_inj.1 (by omega)
          rw [hbc, ih hrest]

end Hexadecimal
end PushGate
