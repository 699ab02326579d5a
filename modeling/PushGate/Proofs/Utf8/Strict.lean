import PushGate.Utf8

/-!
# Strict reading of UTF-8

Strict reading takes the bytes of a text and nothing else: overlong forms, surrogates and numbers above
U+10FFFF are refused by the range of the first tail, so a character that is found at the front of bytes
is the one whose bytes stand there.

**Results.**
* `append_of_front`: a character is found at the front only of its own bytes.
* `decode_eq_ok_iff`, `string?_eq_some_iff`: a text is read from its own bytes only.
* `exists_of_append_encode`: bytes that end in those of a text are cut there.
-/

namespace PushGate
namespace Utf8

/-- What a first byte asks for, by how many tails it has. -/
inductive LeadCase (n : Nat) (l : Lead) : Prop
  | ascii
      (range : n < 0x80)
      (shape : l.tails = 0 ∧ l.bits = n)
  | two
      (range : 0xC2 ≤ n ∧ n < 0xE0)
      (shape : l.tails = 1 ∧ l.bits = n - 0xC0)
      (first : 0x80 ≤ l.low ∧ l.high ≤ 0xBF)
  | three
      (range : 0xE0 ≤ n ∧ n < 0xF0)
      (shape : l.tails = 2 ∧ l.bits = n - 0xE0)
      (first : 0x80 ≤ l.low ∧ l.high ≤ 0xBF)
      (notOverlong : n = 0xE0 → 0xA0 ≤ l.low)
      (noSurrogate : n = 0xED → l.high ≤ 0x9F)
  | four
      (range : 0xF0 ≤ n ∧ n < 0xF5)
      (shape : l.tails = 3 ∧ l.bits = n - 0xF0)
      (first : 0x80 ≤ l.low ∧ l.high ≤ 0xBF)
      (notOverlong : n = 0xF0 → 0x90 ≤ l.low)
      (notAbove : n = 0xF4 → l.high ≤ 0x8F)

theorem leadCase_of_lead
    {n : Nat}
    {l : Lead}
    (h : lead n = some l) :
    LeadCase n l := by
  unfold lead at h
  split at h
  · cases h
    exact .ascii ‹_› ⟨rfl, rfl⟩
  split at h
  · cases h
  split at h
  · cases h
    exact .two (by omega) ⟨rfl, rfl⟩ (by simp)
  split at h
  · cases h
    exact .three (by omega) ⟨rfl, by simp only; omega⟩ (by simp) (by simp) (by omega)
  split at h
  · cases h
    exact .three (by omega) ⟨rfl, by simp only; omega⟩ (by simp) (by omega) (by simp)
  split at h
  · cases h
    exact .three (by omega) ⟨rfl, rfl⟩ (by simp) (by omega) (by omega)
  split at h
  · cases h
    exact .four (by omega) ⟨rfl, by simp only; omega⟩ (by simp) (by simp) (by omega)
  split at h
  · cases h
    exact .four (by omega) ⟨rfl, rfl⟩ (by simp) (by omega) (by omega)
  split at h
  · cases h
    exact .four (by omega) ⟨rfl, by simp only; omega⟩ (by simp) (by omega) (by simp)
  · cases h

section Fronts

variable {value seen count low high n : Nat} {bytes rest : Bytes} {b : UInt8} {c : Char}

/-- A tail byte that has been read was in range. -/
theorem exists_tail
    (h : tails value seen (count + 1) low high bytes = .character c rest) :
    ∃ b more, bytes = b :: more ∧
      low ≤ b.toNat ∧
      b.toNat ≤ high ∧
      tails (value * 64 + b.toNat % 64) (seen + 1) count 0x80 0xBF more = .character c rest := by
  cases bytes with
  | nil => cases h
  | cons b more =>
      rw [tails] at h
      split at h
      · rename_i hrange
        exact ⟨b, more, rfl, hrange.1, hrange.2, h⟩
      · cases h

theorem toNat_eq_of_character
    (h : Front.character (Char.ofNat n) bytes = .character c rest)
    (hvalid : n < 0xD800 ∨ 0xDFFF < n ∧ n < 0x110000) :
    c.toNat = n ∧ bytes = rest := by
  cases h
  refine ⟨?_, rfl⟩
  have hn : n.isValidChar := by
    rw [Nat.isValidChar]
    omega
  rw [Char.ofNat, dif_pos hn]
  rfl

theorem eq_ofNat (h : n = b.toNat) : UInt8.ofNat n = b := by
  rw [h, UInt8.ofNat_toNat]

/-- A character that is found at the front is the one whose bytes stand there. -/
theorem append_of_front
    (h : front b bytes = .character c rest) :
    b :: bytes = String.utf8EncodeChar c ++ rest := by
  rw [front] at h
  split at h
  · cases h
  rename_i l hl
  rw [encodeChar_eq]
  cases leadCase_of_lead hl with
  | ascii range shape =>
      rw [shape.1, tails, shape.2] at h
      obtain ⟨hc, rfl⟩ := toNat_eq_of_character h (by omega)
      rw [if_pos (by omega), eq_ofNat hc]
      rfl
  | two range shape first =>
      rw [shape.1, shape.2] at h
      obtain ⟨b₁, more, rfl, hlow, hhigh, h⟩ := exists_tail h
      rw [tails] at h
      obtain ⟨hc, rfl⟩ := toNat_eq_of_character h (by omega)
      rw [if_neg (by omega), if_pos (by omega), eq_ofNat (b := b) (by omega),
        eq_ofNat (b := b₁) (by omega)]
      rfl
  | three range shape first notOverlong noSurrogate =>
      rw [shape.1, shape.2] at h
      obtain ⟨b₁, more, rfl, hlow, hhigh, h⟩ := exists_tail h
      obtain ⟨b₂, more, rfl, hlow', hhigh', h⟩ := exists_tail h
      rw [tails] at h
      obtain ⟨hc, rfl⟩ := toNat_eq_of_character h (by omega)
      rw [if_neg (by omega), if_neg (by omega), if_pos (by omega), eq_ofNat (b := b) (by omega),
        eq_ofNat (b := b₁) (by omega), eq_ofNat (b := b₂) (by omega)]
      rfl
  | four range shape first notOverlong notAbove =>
      rw [shape.1, shape.2] at h
      obtain ⟨b₁, more, rfl, hlow, hhigh, h⟩ := exists_tail h
      obtain ⟨b₂, more, rfl, hlow', hhigh', h⟩ := exists_tail h
      obtain ⟨b₃, more, rfl, hlow'', hhigh'', h⟩ := exists_tail h
      rw [tails] at h
      obtain ⟨hc, rfl⟩ := toNat_eq_of_character h (by omega)
      rw [if_neg (by omega), if_neg (by omega), if_neg (by omega), eq_ofNat (b := b) (by omega),
        eq_ofNat (b := b₁) (by omega), eq_ofNat (b := b₂) (by omega), eq_ofNat (b := b₃) (by omega)]
      rfl

/-- Behind its first byte, a character has none that begins one. -/
theorem lead_of_mem_tail
    (h : b ∈ (String.utf8EncodeChar c).tail) :
    lead b.toNat = none := by
  suffices hrange : 0x80 ≤ b.toNat ∧ b.toNat < 0xC2 by
    rw [lead, if_neg (by omega), if_pos hrange.2]
  have hvalid := toNat_valid c
  have htail : ∀ k, (UInt8.ofNat (k % 64 + 0x80)).toNat = k % 64 + 0x80 :=
    fun k => toNat_ofNat (by omega)
  rw [encodeChar_eq] at h
  split at h
  · cases h
  split at h
  · simp only [List.tail_cons, List.mem_singleton] at h
    rw [h, htail]
    omega
  split at h
  · simp only [List.tail_cons, List.mem_cons, List.not_mem_nil, or_false] at h
    rcases h with rfl | rfl
    · rw [htail]
      omega
    · rw [htail]
      omega
  · simp only [List.tail_cons, List.mem_cons, List.not_mem_nil, or_false] at h
    rcases h with rfl | rfl | rfl
    · rw [htail]
      omega
    · rw [htail]
      omega
    · rw [htail]
      omega

/-- The bytes of a text begin with one that begins a character. -/
theorem lead_of_encode
    {text : List Char}
    (h : encode text = b :: bytes) :
    lead b.toNat ≠ none := by
  intro hnone
  cases text with
  | nil => cases h
  | cons c text =>
      obtain ⟨b', bytes', hcons, hfront⟩ := front_encodeChar c (encode text)
      rw [encode_cons, hcons] at h
      cases h
      rw [front, hnone] at hfront
      cases hfront

end Fronts

section Texts

variable {index : Nat} {done text : List Char} {bytes : Bytes} {s : String}

theorem eq_of_decodeFrom
    (h : decodeFrom index done bytes = .ok text) :
    ∃ more, text = done.reverse ++ more ∧ bytes = encode more := by
  fun_induction decodeFrom index done bytes with
  | case1 index done =>
      cases h
      exact ⟨[], (List.append_nil _).symm, rfl⟩
  | case2 index done b bytes c rest hfront ih =>
      obtain ⟨more, rfl, rfl⟩ := ih h
      exact ⟨c :: more, by simp, append_of_front hfront⟩
  | case3 => cases h
  | case4 => cases h

/-- A text is read from its own bytes, and from no others. -/
theorem decode_eq_ok_iff :
    decode bytes = .ok text ↔ bytes = encode text := by
  constructor
  · intro h
    obtain ⟨more, rfl, rfl⟩ := eq_of_decodeFrom h
    rfl
  · rintro rfl
    exact decode_encode text

theorem string?_eq_some_iff :
    string? bytes = some s ↔ bytes = ofString s := by
  constructor
  · intro h
    obtain ⟨text, htext, rfl⟩ := Option.map_eq_some_iff.1 h
    cases hdecode : decode bytes with
    | error e =>
        rw [hdecode] at htext
        cases htext
    | ok found =>
        rw [hdecode] at htext
        cases htext
        rw [decode_eq_ok_iff.1 hdecode, ofString, String.toList_ofList]
  · rintro rfl
    exact string?_ofString s

/-- Bytes that end in those of a text, and are those of a text together, are cut there into two. -/
theorem exists_of_append_encode
    {t : List Char}
    (h : bytes ++ encode t = encode text) :
    ∃ front, bytes = encode front ∧ text = front ++ t := by
  induction text generalizing bytes with
  | nil =>
      obtain ⟨rfl, ht⟩ := List.append_eq_nil_iff.1 h
      exact ⟨[], rfl, (encode_injective ht).symm⟩
  | cons c text ih =>
      rw [encode_cons] at h
      rcases List.append_eq_append_iff.1 h with ⟨rest, hc, ht⟩ | ⟨more, rfl, hmore⟩
      · cases bytes with
        | nil => exact ⟨[], rfl, encode_injective h.symm⟩
        | cons b bytes =>
            cases rest with
            | nil =>
                refine ⟨[c], ?_, ?_⟩
                · rw [encode_cons, hc, List.append_nil, encode_nil, List.append_nil]
                · rw [encode_injective ht, List.singleton_append]
            | cons d rest =>
                -- the text would begin inside of a character
                refine absurd (lead_of_mem_tail (c := c) ?_) (lead_of_encode ht)
                rw [hc, List.cons_append, List.tail_cons]
                exact List.mem_append_right bytes List.mem_cons_self
      · obtain ⟨front, rfl, rfl⟩ := ih hmore.symm
        exact ⟨c :: front, rfl, rfl⟩

end Texts

end Utf8
end PushGate
