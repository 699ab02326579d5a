import PushGate.Utf8

/-!
# SHA-1

The message is padded to whole blocks of sixty-four bytes, and each block drives eighty rounds over
a state of five words.

The message schedule is kept as a window of sixteen words: the word of the current round first,
and one new word at the end for each that leaves.

**Results.**
* `digest_length`: a digest has twenty bytes.
-/

namespace PushGate
namespace Sha1

structure State where
  a : UInt32
  b : UInt32
  c : UInt32
  d : UInt32
  e : UInt32
deriving DecidableEq

/-- The state before the first block. -/
def initial : State :=
  ⟨0x67452301, 0xEFCDAB89, 0x98BADCFE, 0x10325476, 0xC3D2E1F0⟩

/-- Rotation to the left, by 1 to 31 places. -/
def rotate (places word : UInt32) : UInt32 :=
  (word <<< places) ||| (word >>> (32 - places))

/-- The function of three words used in round `t`. -/
def mix (t : Nat) (b c d : UInt32) : UInt32 :=
  if t < 20 then (b &&& c) ||| (~~~b &&& d)
  else if t < 40 then b ^^^ c ^^^ d
  else if t < 60 then (b &&& c) ||| (b &&& d) ||| (c &&& d)
  else b ^^^ c ^^^ d

def constant (t : Nat) : UInt32 :=
  if t < 20 then 0x5A827999
  else if t < 40 then 0x6ED9EBA1
  else if t < 60 then 0x8F1BBCDC
  else 0xCA62C1D6

/-- Round `t` with the scheduled word `w`. -/
def round (t : Nat) (w : UInt32) (s : State) : State :=
  ⟨rotate 5 s.a + mix t s.b s.c s.d + s.e + w + constant t, s.a, rotate 30 s.b, s.c, s.d⟩

/-- The word that enters the window when its first word leaves. -/
def scheduled (window : List UInt32) : UInt32 :=
  rotate 1 (window.getD 13 0 ^^^ window.getD 8 0 ^^^ window.getD 2 0 ^^^ window.getD 0 0)

/-- `count` rounds from round `t` on. -/
def rounds : (count t : Nat) → (window : List UInt32) → State → State
  | 0, _, _, s => s
  | count + 1, t, window, s =>
      rounds count (t + 1) (window.tail ++ [scheduled window]) (round t (window.headD 0) s)

/-- One block, given as its sixteen words. -/
def compress (s : State) (block : List UInt32) : State :=
  let r := rounds 80 0 block s
  ⟨s.a + r.a, s.b + r.b, s.c + r.c, s.d + r.d, s.e + r.e⟩

/-- Words from bytes, the most significant byte first. -/
def words : Bytes → List UInt32
  | a :: b :: c :: d :: rest =>
      (a.toUInt32 <<< 24 ||| b.toUInt32 <<< 16 ||| c.toUInt32 <<< 8 ||| d.toUInt32) :: words rest
  | _ => []

/-- The bytes of a word, the most significant first. -/
def wordBytes (w : UInt32) : Bytes :=
  [(w >>> 24).toUInt8, (w >>> 16).toUInt8, (w >>> 8).toUInt8, w.toUInt8]

/-- The bits of a message of `size` bytes, counted in eight bytes. -/
def lengthBytes (size : Nat) : Bytes :=
  let bits := UInt64.ofNat (8 * size)
  wordBytes (bits >>> 32).toUInt32 ++ wordBytes bits.toUInt32

/-- How many zero bytes stand between the closing bit and the length. -/
def paddingZeros (size : Nat) : Nat :=
  (119 - size % 64) % 64

/-- The message in whole blocks. -/
def pad (message : Bytes) : Bytes :=
  message ++ (0x80 :: List.replicate (paddingZeros message.length) 0 ++ lengthBytes message.length)

/-- `count` blocks of a padded message. -/
def compressBlocks : (count : Nat) → State → Bytes → State
  | 0, s, _ => s
  | count + 1, s, bytes =>
      compressBlocks count (compress s (words (bytes.take 64))) (bytes.drop 64)

def digest (message : Bytes) : Bytes :=
  let padded := pad message
  let s := compressBlocks (padded.length / 64) initial padded
  wordBytes s.a ++ wordBytes s.b ++ wordBytes s.c ++ wordBytes s.d ++ wordBytes s.e

@[simp] theorem digest_length (message : Bytes) : (digest message).length = 20 := rfl

/-- The padded message is a whole number of blocks. -/
theorem pad_length_mod (message : Bytes) : (pad message).length % 64 = 0 := by
  simp only [pad, lengthBytes, wordBytes, List.length_append, List.length_cons,
    List.length_replicate, List.length_nil, paddingZeros]
  omega

end Sha1
end PushGate
