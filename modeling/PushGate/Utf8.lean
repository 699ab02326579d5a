/-!
# UTF-8

Bytes that come off the wire are read as text in two ways: strictly, where the first byte
sequence that is no character refuses the whole, and leniently, where each such sequence is
replaced by U+FFFD.  Both follow the same view of what stands at the front of a byte sequence.

**Front.**  A first byte fixes how many tail bytes follow and the range of the first tail (which
rules out overlong forms, surrogates and values above U+10FFFF); every further tail is in
`80 .. BF`.  A sequence that breaks off at a byte outside its range is a fault as long as the part
before that byte; one that the input ends inside is cut.

**Results.**
* `front_length`: a character or a fault leaves fewer bytes than there were.
* `decode_encode`: the strict reading of a text's bytes is that text.
* `encode_injective`: different texts have different bytes.
-/

namespace PushGate

abbrev Bytes := List UInt8

namespace Utf8

def encode (text : List Char) : Bytes :=
  text.flatMap String.utf8EncodeChar

def ofString (s : String) : Bytes :=
  encode s.toList

@[simp] theorem encode_nil : encode [] = [] := rfl

theorem encode_cons (c : Char) (text : List Char) :
    encode (c :: text) = String.utf8EncodeChar c ++ encode text := rfl

theorem encode_append (s t : List Char) : encode (s ++ t) = encode s ++ encode t := by
  simp [encode]

/-- What a first byte asks for. -/
structure Lead where
  tails : Nat
  /-- Least value of the first tail byte. -/
  low : Nat
  /-- Greatest value of the first tail byte. -/
  high : Nat
  /-- The bits of the code point that the first byte carries. -/
  bits : Nat
deriving DecidableEq

/-- The first bytes of UTF-8; `none` for a byte that begins no character. -/
def lead (b : Nat) : Option Lead :=
  if b < 0x80 then some ⟨0, 0x80, 0xBF, b⟩
  else if b < 0xC2 then none
  else if b < 0xE0 then some ⟨1, 0x80, 0xBF, b - 0xC0⟩
  else if b = 0xE0 then some ⟨2, 0xA0, 0xBF, 0⟩
  else if b = 0xED then some ⟨2, 0x80, 0x9F, 0x0D⟩
  else if b < 0xF0 then some ⟨2, 0x80, 0xBF, b - 0xE0⟩
  else if b = 0xF0 then some ⟨3, 0x90, 0xBF, 0⟩
  else if b < 0xF4 then some ⟨3, 0x80, 0xBF, b - 0xF0⟩
  else if b = 0xF4 then some ⟨3, 0x80, 0x8F, 4⟩
  else none

/-- What stands at the front of a byte sequence. -/
inductive Front where
  /-- A whole character, and the bytes after it. -/
  | character (c : Char) (rest : Bytes)
  /-- A number of bytes that begin no character, and the bytes after them. -/
  | fault (length : Nat) (rest : Bytes)
  /-- The bytes end inside a character. -/
  | cut
deriving DecidableEq

/-- Reads `count` tail bytes, the next one in `low .. high`, after `seen` bytes of a sequence. -/
def tails (value seen : Nat) : (count low high : Nat) → Bytes → Front
  | 0, _, _, rest => .character (Char.ofNat value) rest
  | _ + 1, _, _, [] => .cut
  | count + 1, low, high, b :: rest =>
      if low ≤ b.toNat ∧ b.toNat ≤ high then
        tails (value * 64 + b.toNat % 64) (seen + 1) count 0x80 0xBF rest
      else .fault seen (b :: rest)

/-- The front of a sequence that begins with `b`. -/
def front (b : UInt8) (rest : Bytes) : Front :=
  match lead b.toNat with
  | none => .fault 1 rest
  | some l => tails l.bits 1 l.tails l.low l.high rest

def Front.rest : Front → Bytes
  | .character _ rest => rest
  | .fault _ rest => rest
  | .cut => []

theorem tails_length (value seen count low high : Nat) (bytes : Bytes) :
    (tails value seen count low high bytes).rest.length ≤ bytes.length := by
  induction count generalizing value seen low high bytes with
  | zero => simp [tails, Front.rest]
  | succ count ih =>
      cases bytes with
      | nil => simp [tails, Front.rest]
      | cons b rest =>
          simp only [tails]
          split
          · have := ih (value * 64 + b.toNat % 64) (seen + 1) 0x80 0xBF rest
            simp only [List.length_cons]
            omega
          · simp [Front.rest]

/-- Reading the front uses up at least the first byte. -/
theorem front_length (b : UInt8) (rest : Bytes) :
    (front b rest).rest.length < (b :: rest).length := by
  unfold front
  split
  · simp [Front.rest]
  · rename_i l _
    have := tails_length l.bits 1 l.tails l.low l.high rest
    simp only [List.length_cons]
    omega

/-- Where a byte sequence stops being UTF-8. -/
structure Error where
  /-- How many bytes before the fault are sound. -/
  index : Nat
  /-- Length of the faulty sequence; `none` where the input ends inside a sound one. -/
  length : Option Nat
deriving DecidableEq

def Error.message : Error → String
  | ⟨index, some length⟩ => s!"invalid utf-8 sequence of {length} bytes from index {index}"
  | ⟨index, none⟩ => s!"incomplete utf-8 byte sequence from index {index}"

/-- Strict reading from `index` on, after the characters `done` (latest first). -/
def decodeFrom (index : Nat) (done : List Char) : Bytes → Except Error (List Char)
  | [] => .ok done.reverse
  | b :: bytes =>
      match _h : front b bytes with
      | .character c rest => decodeFrom (index + c.utf8Size) (c :: done) rest
      | .fault length _ => .error ⟨index, some length⟩
      | .cut => .error ⟨index, none⟩
termination_by bytes => bytes.length
decreasing_by
  have := front_length b bytes
  rw [_h] at this
  exact this

/-- Strict reading: the text that the bytes encode, or the first place where they encode none. -/
def decode (bytes : Bytes) : Except Error (List Char) :=
  decodeFrom 0 [] bytes

/-- Lenient reading after the characters `done` (latest first). -/
def lossyFrom (done : List Char) : Bytes → List Char
  | [] => done.reverse
  | b :: bytes =>
      match _h : front b bytes with
      | .character c rest => lossyFrom (c :: done) rest
      | .fault _ rest => lossyFrom ('\uFFFD' :: done) rest
      | .cut => ('\uFFFD' :: done).reverse
termination_by bytes => bytes.length
decreasing_by
  all_goals
    have := front_length b bytes
    rw [_h] at this
    exact this

/-- Lenient reading: each faulty sequence, and a sequence cut at the end, reads as U+FFFD. -/
def lossy (bytes : Bytes) : String :=
  String.ofList (lossyFrom [] bytes)

def string? (bytes : Bytes) : Option String :=
  (decode bytes).toOption.map String.ofList

/-! ## Reading back what was written -/

section RoundTrip

theorem ofNat_toNat (c : Char) : Char.ofNat c.toNat = c :=
  Char.ofNat_toNat c

/-- A text's first character stands at the front of its bytes. -/
theorem encodeChar_eq (c : Char) :
    String.utf8EncodeChar c =
      if c.toNat < 0x80 then [UInt8.ofNat c.toNat]
      else if c.toNat < 0x800 then
        [UInt8.ofNat (c.toNat / 64 + 0xC0), UInt8.ofNat (c.toNat % 64 + 0x80)]
      else if c.toNat < 0x10000 then
        [UInt8.ofNat (c.toNat / 4096 + 0xE0), UInt8.ofNat (c.toNat / 64 % 64 + 0x80),
          UInt8.ofNat (c.toNat % 64 + 0x80)]
      else
        [UInt8.ofNat (c.toNat / 262144 + 0xF0), UInt8.ofNat (c.toNat / 4096 % 64 + 0x80),
          UInt8.ofNat (c.toNat / 64 % 64 + 0x80), UInt8.ofNat (c.toNat % 64 + 0x80)] := by
  have hc : c.val.toNat = c.toNat := rfl
  have hmax : c.toNat < 0x110000 := by
    have := c.valid
    simp only [UInt32.isValidChar, Nat.isValidChar, hc] at this
    omega
  unfold String.utf8EncodeChar
  simp only [hc]
  split
  · rw [if_pos (by omega)]
  split
  · rw [if_neg (by omega), if_pos (by omega)]
    congr 2
    omega
  split
  · rw [if_neg (by omega), if_neg (by omega), if_pos (by omega)]
    congr 2
    omega
  · rw [if_neg (by omega), if_neg (by omega), if_neg (by omega)]
    congr 2
    omega

theorem toNat_ofNat {n : Nat} (h : n < 256) : (UInt8.ofNat n).toNat = n := by
  simp [UInt8.toNat_ofNat']
  omega

/-- A code point is no surrogate and at most U+10FFFF. -/
theorem toNat_valid (c : Char) : c.toNat < 0xD800 ∨ 0xDFFF < c.toNat ∧ c.toNat < 0x110000 := by
  have := c.valid
  have hc : c.val.toNat = c.toNat := rfl
  simp only [UInt32.isValidChar, Nat.isValidChar, hc] at this
  omega

/-- One more tail byte that is in range. -/
theorem tails_succ {value seen count low high n : Nat} {rest : Bytes}
    (hn : n < 256) (hlow : low ≤ n) (hhigh : n ≤ high) :
    tails value seen (count + 1) low high (UInt8.ofNat n :: rest) =
      tails (value * 64 + n % 64) (seen + 1) count 0x80 0xBF rest := by
  simp only [tails, toNat_ofNat hn]
  rw [if_pos ⟨hlow, hhigh⟩]

theorem front_of_lead {n : Nat} {l : Lead} (hn : n < 256) (hl : lead n = some l) (rest : Bytes) :
    front (UInt8.ofNat n) rest = tails l.bits 1 l.tails l.low l.high rest := by
  simp only [front, toNat_ofNat hn, hl]

theorem front_two (c : Char) (rest : Bytes) (hlow : 0x80 ≤ c.toNat) (hhigh : c.toNat < 0x800) :
    front (UInt8.ofNat (c.toNat / 64 + 0xC0)) (UInt8.ofNat (c.toNat % 64 + 0x80) :: rest) =
      .character c rest := by
  have hl : lead (c.toNat / 64 + 0xC0) = some ⟨1, 0x80, 0xBF, c.toNat / 64⟩ := by
    grind [lead]
  rw [front_of_lead (by omega) hl]
  simp only
  rw [tails_succ (by omega) (by omega) (by omega)]
  simp only [tails]
  rw [show c.toNat / 64 * 64 + (c.toNat % 64 + 128) % 64 = c.toNat by omega, ofNat_toNat]

theorem front_three (c : Char) (rest : Bytes) (hlow : 0x800 ≤ c.toNat)
    (hhigh : c.toNat < 0x10000) :
    front (UInt8.ofNat (c.toNat / 4096 + 0xE0))
        (UInt8.ofNat (c.toNat / 64 % 64 + 0x80) :: UInt8.ofNat (c.toNat % 64 + 0x80) :: rest) =
      .character c rest := by
  have hv := toNat_valid c
  obtain ⟨low, high, hl, hlo, hhi⟩ :
      ∃ low high, lead (c.toNat / 4096 + 0xE0) = some ⟨2, low, high, c.toNat / 4096⟩ ∧
        low ≤ c.toNat / 64 % 64 + 0x80 ∧ c.toNat / 64 % 64 + 0x80 ≤ high := by
    by_cases hfirst : c.toNat / 4096 = 0
    · exact ⟨0xA0, 0xBF, by grind [lead], by omega, by omega⟩
    by_cases hsurrogate : c.toNat / 4096 = 13
    · exact ⟨0x80, 0x9F, by grind [lead], by omega, by omega⟩
    · exact ⟨0x80, 0xBF, by grind [lead], by omega, by omega⟩
  rw [front_of_lead (by omega) hl]
  simp only
  rw [tails_succ (by omega) hlo hhi, tails_succ (by omega) (by omega) (by omega)]
  simp only [tails]
  rw [show (c.toNat / 4096 * 64 + (c.toNat / 64 % 64 + 128) % 64) * 64 +
    (c.toNat % 64 + 128) % 64 = c.toNat by omega, ofNat_toNat]

theorem front_four (c : Char) (rest : Bytes) (hlow : 0x10000 ≤ c.toNat) :
    front (UInt8.ofNat (c.toNat / 262144 + 0xF0))
        (UInt8.ofNat (c.toNat / 4096 % 64 + 0x80) :: UInt8.ofNat (c.toNat / 64 % 64 + 0x80) ::
          UInt8.ofNat (c.toNat % 64 + 0x80) :: rest) =
      .character c rest := by
  have hv := toNat_valid c
  obtain ⟨low, high, hl, hlo, hhi⟩ :
      ∃ low high, lead (c.toNat / 262144 + 0xF0) = some ⟨3, low, high, c.toNat / 262144⟩ ∧
        low ≤ c.toNat / 4096 % 64 + 0x80 ∧ c.toNat / 4096 % 64 + 0x80 ≤ high := by
    by_cases hfirst : c.toNat / 262144 = 0
    · exact ⟨0x90, 0xBF, by grind [lead], by omega, by omega⟩
    by_cases hlast : c.toNat / 262144 = 4
    · exact ⟨0x80, 0x8F, by grind [lead], by omega, by omega⟩
    · exact ⟨0x80, 0xBF, by grind [lead], by omega, by omega⟩
  rw [front_of_lead (by omega) hl]
  simp only
  rw [tails_succ (by omega) hlo hhi, tails_succ (by omega) (by omega) (by omega),
    tails_succ (by omega) (by omega) (by omega)]
  simp only [tails]
  rw [show ((c.toNat / 262144 * 64 + (c.toNat / 4096 % 64 + 128) % 64) * 64 +
    (c.toNat / 64 % 64 + 128) % 64) * 64 + (c.toNat % 64 + 128) % 64 = c.toNat by omega,
    ofNat_toNat]

/-- The bytes of a character, then anything: the character stands at the front. -/
theorem front_encodeChar (c : Char) (rest : Bytes) :
    ∃ b bytes, String.utf8EncodeChar c ++ rest = b :: bytes ∧
      front b bytes = .character c rest := by
  rw [encodeChar_eq]
  split
  · rename_i h
    have hl : lead c.toNat = some ⟨0, 0x80, 0xBF, c.toNat⟩ := by simp [lead, h]
    refine ⟨_, rest, rfl, ?_⟩
    rw [front_of_lead (by omega) hl]
    simp [tails]
  split
  · exact ⟨_, _, rfl, front_two c rest (by omega) (by omega)⟩
  split
  · exact ⟨_, _, rfl, front_three c rest (by omega) (by omega)⟩
  · exact ⟨_, _, rfl, front_four c rest (by omega)⟩

theorem decodeFrom_encode (index : Nat) (done text : List Char) :
    decodeFrom index done (encode text) = .ok (done.reverse ++ text) := by
  induction text generalizing index done with
  | nil => simp [decodeFrom]
  | cons c text ih =>
      obtain ⟨b, bytes, hcons, hfront⟩ := front_encodeChar c (encode text)
      rw [encode_cons, hcons, decodeFrom]
      split
      · rename_i c' rest h
        rw [hfront] at h
        cases h
        simp [ih]
      · rename_i h
        rw [hfront] at h
        cases h
      · rename_i h
        rw [hfront] at h
        cases h

/-- The strict reading of a text's bytes is that text. -/
@[simp] theorem decode_encode (text : List Char) : decode (encode text) = .ok text := by
  simp [decode, decodeFrom_encode]

theorem lossyFrom_encode (done text : List Char) :
    lossyFrom done (encode text) = done.reverse ++ text := by
  induction text generalizing done with
  | nil => simp [lossyFrom]
  | cons c text ih =>
      obtain ⟨b, bytes, hcons, hfront⟩ := front_encodeChar c (encode text)
      rw [encode_cons, hcons, lossyFrom]
      split
      · rename_i c' rest h
        rw [hfront] at h
        cases h
        simp [ih]
      · rename_i h
        rw [hfront] at h
        cases h
      · rename_i h
        rw [hfront] at h
        cases h

/-- The lenient reading of a string's bytes is that string. -/
@[simp] theorem lossy_ofString (s : String) : lossy (ofString s) = s := by
  simp [lossy, ofString, lossyFrom_encode]

@[simp] theorem string?_ofString (s : String) : string? (ofString s) = some s := by
  simp [string?, ofString, Except.toOption]

/-- Different texts have different bytes. -/
theorem encode_injective {s t : List Char} (h : encode s = encode t) : s = t := by
  have := decode_encode s
  rw [h, decode_encode] at this
  exact (Except.ok.inj this).symm

theorem ofString_injective {s t : String} (h : ofString s = ofString t) : s = t :=
  String.toList_inj.1 (encode_injective h)

end RoundTrip

end Utf8
end PushGate
