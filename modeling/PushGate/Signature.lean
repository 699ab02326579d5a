import PushGate.Sha1
import PushGate.Text.Hexadecimal

/-!
# Signatures

The platform signs a delivery with a token that it shares with the receiver: the token, the
timestamp and the nonce are sorted by their bytes, joined and hashed, and the digest travels in
lowercase hexadecimal.

**Results.**
* `sameBytes_iff`: the comparison that looks at every byte accepts equal byte sequences only.
* `check_eq_true_iff`: exactly one signature is accepted.
* `length_compute`: it has forty characters.
-/

namespace PushGate
namespace Signature

/-- The bytes that are hashed: the three texts, sorted by their bytes and joined. -/
def material (token timestamp nonce : String) : Bytes :=
  (([token, timestamp, nonce].map Utf8.ofString).mergeSort fun s t => decide (s ≤ t)).flatten

/-- The signature of a delivery. -/
def compute (token timestamp nonce : String) : String :=
  String.ofList (Hexadecimal.ofBytes (Sha1.digest (material token timestamp nonce)))

/-- How many characters a signature has. -/
def size : Nat := 40

/-- Compares every byte, so that the time taken does not tell where two sequences differ. -/
def sameBytes (s t : Bytes) : Bool :=
  s.length == t.length && (List.zipWith (· ^^^ ·) s t).foldl (· ||| ·) 0 == 0

/-- Whether a signature is the one that the token gives to the timestamp and nonce. -/
def check (signature timestamp nonce token : String) : Bool :=
  sameBytes (Utf8.ofString (compute token timestamp nonce)) (Utf8.ofString signature)

/-! ## Comparison -/

theorem foldl_or_eq_zero_iff (bytes : Bytes) (b : UInt8) :
    bytes.foldl (· ||| ·) b = 0 ↔ b = 0 ∧ ∀ c ∈ bytes, c = 0 := by
  induction bytes generalizing b with
  | nil => simp
  | cons c bytes ih => simp [ih, and_assoc]

theorem sameBytes_iff (s t : Bytes) : sameBytes s t = true ↔ s = t := by
  simp only [sameBytes, Bool.and_eq_true, beq_iff_eq, foldl_or_eq_zero_iff, true_and]
  induction s generalizing t with
  | nil => cases t <;> simp
  | cons b s ih =>
      cases t with
      | nil => simp
      | cons c t =>
          simp only [List.length_cons, Nat.add_right_cancel_iff, List.zipWith_cons_cons,
            List.mem_cons, forall_eq_or_imp, List.cons.injEq, ← ih t, UInt8.xor_eq_zero_iff]
          grind

/-- Exactly one signature is accepted. -/
theorem check_eq_true_iff {signature timestamp nonce token : String} :
    check signature timestamp nonce token = true ↔
      signature = compute token timestamp nonce := by
  rw [check, sameBytes_iff]
  exact ⟨fun h => (Utf8.ofString_injective h).symm, fun h => by rw [h]⟩

/-- A signature has forty characters. -/
theorem length_compute (token timestamp nonce : String) :
    (compute token timestamp nonce).length = size := by
  simp [compute, size]

end Signature
end PushGate
