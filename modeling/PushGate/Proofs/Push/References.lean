import PushGate.Proofs.Push.Reading

/-!
# Reading written text

A character of a text is written as itself or as a reference, and either form is read back as that
character.  For references by number this rests on two facts about digits: those of a number, in a
base whose digits are read one by one, make the number again; and a code point has at most seven
digits in decimal and at most six in hexadecimal, which is what references may have.

**Results.**
* `number_toDigits`: the digits of a number are read as the number.
* `resolve_writes`: every form of a text is read as the text.
-/

namespace PushGate
namespace Markup
namespace Reference

open Utf8 (encode)

section Numbers

variable {digit? : Char → Option Nat} {base value n : Nat} {s t : List Char}

theorem number_cons_eq_ok_iff {c : Char} :
    number digit? base value (c :: s) = .ok n ↔
      ∃ d, digit? c = some d ∧ number digit? base (base * value + d) s = .ok n := by
  rw [number]
  cases digit? c with
  | none => simp
  | some d => simp

theorem number_append
    (h : number digit? base value s = .ok n) :
    number digit? base value (s ++ t) = number digit? base n t := by
  induction s generalizing value with
  | nil =>
      cases h
      rfl
  | cons c s ih =>
      obtain ⟨d, hd, hrest⟩ := number_cons_eq_ok_iff.1 h
      rw [List.cons_append, number, hd]
      exact ih hrest

/-- The digits of a number are read as the number. -/
theorem number_toDigits
    (hbase : 1 < base)
    (hdigit : ∀ d < base, digit? (Nat.digitChar d) = some d)
    (n : Nat) :
    number digit? base 0 (Nat.toDigits base n) = .ok n := by
  induction n using Nat.strongRecOn with
  | ind n ih =>
      rcases Nat.lt_or_ge n base with hlt | hge
      · rw [Nat.toDigits_of_lt_base hlt]
        simp [number, hdigit n hlt]
      · have hquotient : n / base < n := Nat.div_lt_self (by omega) hbase
        have hremainder : n % base < base := Nat.mod_lt n (by omega)
        rw [Nat.toDigits_of_base_le hbase hge, number_append (ih _ hquotient)]
        simp [number, hdigit _ hremainder, Nat.div_add_mod]

theorem isSome_of_number
    (h : number digit? base value s = .ok n) :
    ∀ c ∈ s, (digit? c).isSome = true := by
  induction s generalizing value with
  | nil =>
      intro c hc
      cases hc
  | cons c s ih =>
      obtain ⟨d, hd, hrest⟩ := number_cons_eq_ok_iff.1 h
      rintro e he
      rcases List.mem_cons.1 he with rfl | he
      · rw [hd]
        rfl
      · exact ih hrest e he

/-- Digits that have the same values are read alike. -/
theorem number_map
    {change : Char → Char}
    (hchange : ∀ c, digit? (change c) = digit? c)
    (h : number digit? base value (s.map change) = .ok n) :
    number digit? base value s = .ok n := by
  induction s generalizing value with
  | nil => exact h
  | cons c s ih =>
      obtain ⟨d, hd, hrest⟩ := number_cons_eq_ok_iff.1 h
      rw [hchange] at hd
      exact number_cons_eq_ok_iff.2 ⟨d, hd, ih hrest⟩

end Numbers

section Digits

variable {c : Char}

theorem decimal?_digitChar : ∀ d < 10, decimal? (Nat.digitChar d) = some d := by
  decide

theorem value?_digitChar : ∀ d < 16, Hexadecimal.value? (Nat.digitChar d) = some d := by
  decide

/-- A character that ends neither a reference nor a text. -/
def isPlain (c : Char) : Bool :=
  isInner c && c != '<'

/-- A digit is plain and one byte. -/
structure IsDigit (c : Char) : Prop where
  ascii : c.toNat < 0x80
  plain : isPlain c = true

theorem ne_of_isSome
    {digit? : Char → Option Nat}
    {d : Char}
    (hc : (digit? c).isSome = true)
    (hd : digit? d = none) :
    c ≠ d := by
  rintro rfl
  rw [hd] at hc
  cases hc

theorem isDigit_of_isSome
    {digit? : Char → Option Nat}
    (hascii : c.toNat < 0x80)
    (hc : (digit? c).isSome = true)
    (hother : digit? '&' = none ∧ digit? ';' = none ∧ digit? '<' = none) :
    IsDigit c := by
  refine ⟨hascii, ?_⟩
  rw [isPlain, isInner, Bool.and_eq_true, Bool.and_eq_true, bne_iff_ne, bne_iff_ne, bne_iff_ne]
  exact ⟨⟨ne_of_isSome hc hother.1, ne_of_isSome hc hother.2.1⟩, ne_of_isSome hc hother.2.2⟩

theorem isDigit_of_decimal?
    (h : (decimal? c).isSome = true) :
    IsDigit c := by
  have hascii : c.toNat < 0x80 := by
    rw [decimal?] at h
    split at h
    · rename_i hdigit
      exact toNat_lt_of_isAlphanum (by simp [Char.isAlphanum, hdigit])
    · cases h
  exact isDigit_of_isSome hascii h ⟨rfl, rfl, rfl⟩

theorem isDigit_of_value?
    (h : (Hexadecimal.value? c).isSome = true) :
    IsDigit c := by
  have hascii : c.toNat < 0x80 := by
    have hle : ∀ {d : Char}, c ≤ d → c.toNat ≤ d.toNat := fun h => h
    rw [Hexadecimal.value?] at h
    split at h
    · rename_i hrange
      exact Nat.lt_of_le_of_lt (hle hrange.2) (by decide)
    split at h
    · rename_i hrange
      exact Nat.lt_of_le_of_lt (hle hrange.2) (by decide)
    split at h
    · rename_i hrange
      exact Nat.lt_of_le_of_lt (hle hrange.2) (by decide)
    · cases h
  exact isDigit_of_isSome hascii h ⟨rfl, rfl, rfl⟩

end Digits

section Codes

variable {c : Char} {n : Nat} {digits : List Char}

/-- A reference with this name stands for the character. -/
def StandsFor (name : List Char) (c : Char) : Prop :=
  (∀ d ∈ name, isPlain d = true) ∧ ∀ start stop, character start stop name = .ok c

theorem encode_digits (h : ∀ c ∈ digits, IsDigit c) :
    ((encode digits).map fun b => Char.ofNat b.toNat) = digits := by
  induction digits with
  | nil => rfl
  | cons c digits ih =>
      have hc := (h c List.mem_cons_self).ascii
      rw [Utf8.encode_cons, Utf8.encodeChar_eq, if_pos hc, List.singleton_append, List.map_cons]
      rw [ih fun d hd => h d (List.mem_cons_of_mem _ hd), Utf8.toNat_ofNat (by omega),
        Utf8.ofNat_toNat]

theorem code_decimal
    (hnumber : number decimal? 10 0 digits = .ok n)
    (hlength : digits.length ≤ 7) :
    code digits = .ok n := by
  have hdigits := fun c hc => isDigit_of_decimal? (isSome_of_number hnumber c hc)
  rw [code, encode_digits hdigits]
  split
  · have hx := isSome_of_number hnumber 'x' List.mem_cons_self
    cases hx
  · rw [if_neg (by omega), hnumber]
    rfl

theorem code_hexadecimal
    (hnumber : number Hexadecimal.value? 16 0 digits = .ok n)
    (hlength : digits.length ≤ 6) :
    code ('x' :: digits) = .ok n := by
  have hdigits := fun c hc => isDigit_of_value? (isSome_of_number hnumber c hc)
  have hencode : ((encode ('x' :: digits)).map fun b => Char.ofNat b.toNat) = 'x' :: digits := by
    refine encode_digits ?_
    intro c hc
    rcases List.mem_cons.1 hc with rfl | hc
    · exact ⟨by decide, rfl⟩
    · exact hdigits c hc
  rw [code, hencode]
  simp only
  rw [if_neg (by omega), hnumber]
  rfl

/-- A reference to a code point is the character there. -/
theorem character_of_code
    (hcode : code digits = .ok c.toNat)
    (hc : c ≠ '\x00')
    (start stop : Nat) :
    character start stop ('#' :: digits) = .ok c := by
  have hzero : ¬ c.toNat = 0 := by
    intro h
    refine hc ?_
    rw [← Utf8.ofNat_toNat c, h]
  have hvalid : c.toNat.isValidChar := c.valid
  rw [character, hcode]
  change (if c.toNat = 0 then Except.error _
    else if c.toNat.isValidChar then Except.ok (Char.ofNat c.toNat) else _) = _
  rw [if_neg hzero, if_pos hvalid, Utf8.ofNat_toNat]

theorem length_toDigits_code (c : Char) :
    (Nat.toDigits 10 c.toNat).length ≤ 7 ∧ (Nat.toDigits 16 c.toNat).length ≤ 6 := by
  have hvalid := Utf8.toNat_valid c
  constructor
  · rw [Nat.length_toDigits_le_iff (by decide) (by decide)]
    exact Nat.lt_of_lt_of_le (m := 0x110000) (by omega) (by decide)
  · rw [Nat.length_toDigits_le_iff (by decide) (by decide)]
    exact Nat.lt_of_lt_of_le (m := 0x110000) (by omega) (by decide)

theorem standsFor_predefined
    {name : String}
    (h : (name, c) ∈ Push.predefined) :
    StandsFor name.toList c := by
  simp only [Push.predefined, List.mem_cons, Prod.mk.injEq, List.not_mem_nil, or_false] at h
  rcases h with ⟨rfl, rfl⟩ | ⟨rfl, rfl⟩ | ⟨rfl, rfl⟩ | ⟨rfl, rfl⟩ | ⟨rfl, rfl⟩
  · exact ⟨List.all_eq_true.1 rfl, fun _ _ => rfl⟩
  · exact ⟨List.all_eq_true.1 rfl, fun _ _ => rfl⟩
  · exact ⟨List.all_eq_true.1 rfl, fun _ _ => rfl⟩
  · exact ⟨List.all_eq_true.1 rfl, fun _ _ => rfl⟩
  · exact ⟨List.all_eq_true.1 rfl, fun _ _ => rfl⟩

theorem standsFor_decimal (hc : c ≠ '\x00') :
    StandsFor ('#' :: Nat.toDigits 10 c.toNat) c := by
  have hnumber := number_toDigits (by decide) decimal?_digitChar c.toNat
  constructor
  · intro d hd
    rcases List.mem_cons.1 hd with rfl | hd
    · rfl
    · exact (isDigit_of_decimal? (isSome_of_number hnumber d hd)).plain
  · exact character_of_code (code_decimal hnumber (length_toDigits_code c).1) hc

theorem standsFor_hexadecimal
    (hc : c ≠ '\x00')
    (hdigits : digits.map Char.toLower = Nat.toDigits 16 c.toNat) :
    StandsFor ('#' :: 'x' :: digits) c := by
  have hlength : digits.length ≤ 6 := by
    rw [← List.length_map Char.toLower, hdigits]
    exact (length_toDigits_code c).2
  have hnumber : number Hexadecimal.value? 16 0 digits = .ok c.toNat := by
    refine number_map Hexadecimal.value?_toLower ?_
    rw [hdigits]
    exact number_toDigits (by decide) value?_digitChar c.toNat
  constructor
  · intro d hd
    rcases List.mem_cons.1 hd with rfl | hd
    · rfl
    rcases List.mem_cons.1 hd with rfl | hd
    · rfl
    · exact (isDigit_of_value? (isSome_of_number hnumber d hd)).plain
  · exact character_of_code (code_hexadecimal hnumber hlength) hc

end Codes

section Texts

variable {c : Char} {size index : Nat} {done name rest : List Char}

/-- A reference is replaced by its character. -/
theorem resolveFrom_inner
    (hinner : ∀ d ∈ name, isInner d = true)
    (hcharacter : ∀ start stop, character start stop name = .ok c) :
    ∃ next, resolveFrom size index done ('&' :: (name ++ ';' :: rest)) =
      resolveFrom size next (c :: done) rest := by
  have hdrop : (name ++ ';' :: rest).dropWhile isInner = ';' :: rest := by
    rw [List.dropWhile_append_of_pos hinner]
    rfl
  have htake : (name ++ ';' :: rest).takeWhile isInner = name := by
    rw [List.takeWhile_append_of_pos hinner]
    exact List.append_nil name
  refine ⟨index + 1 + (encode name).length + 1, ?_⟩
  rw [resolveFrom, if_pos rfl]
  split
  · rename_i rest' heq
    rw [hdrop] at heq
    cases heq
    simp only [htake, hcharacter]
  · rename_i hother
    exact absurd hdrop (hother rest)

theorem resolveFrom_reference (h : StandsFor name c) :
    ∃ next, resolveFrom size index done ('&' :: (name ++ ';' :: rest)) =
      resolveFrom size next (c :: done) rest := by
  refine resolveFrom_inner (fun d hd => ?_) h.2
  have hplain := h.1 d hd
  rw [isPlain, Bool.and_eq_true] at hplain
  exact hplain.1

/-- Each form of a character is read as the character. -/
theorem resolveFrom_writesChar
    {v : List Char}
    (h : Push.WritesChar c v) :
    ∃ next, resolveFrom size index done (v ++ rest) =
      resolveFrom size next (c :: done) rest := by
  cases h with
  | raw noReference noTag =>
      refine ⟨index + c.utf8Size, ?_⟩
      rw [List.singleton_append, resolveFrom, if_neg noReference]
  | named known =>
      rw [List.cons_append, List.append_assoc]
      exact resolveFrom_reference (standsFor_predefined known)
  | decimal notNull =>
      rw [List.cons_append, List.cons_append, List.append_assoc]
      exact resolveFrom_reference (standsFor_decimal notNull)
  | hexadecimal notNull value =>
      rw [List.cons_append, List.cons_append, List.cons_append, List.append_assoc]
      exact resolveFrom_reference (standsFor_hexadecimal notNull value)

/-- No tag begins in a reference. -/
theorem not_mem_reference (h : StandsFor name c) :
    '<' ∉ '&' :: (name ++ [';']) := by
  intro hmem
  rcases List.mem_cons.1 hmem with heq | hmem
  · exact absurd heq (by decide)
  rcases List.mem_append.1 hmem with hmem | hmem
  · exact absurd (h.1 '<' hmem) (by decide)
  · exact absurd (List.mem_singleton.1 hmem) (by decide)

theorem not_mem_writesChar
    {v : List Char}
    (h : Push.WritesChar c v) :
    '<' ∉ v := by
  cases h with
  | raw noReference noTag => exact fun hmem => noTag (List.mem_singleton.1 hmem).symm
  | named known => exact not_mem_reference (standsFor_predefined known)
  | decimal notNull => exact not_mem_reference (standsFor_decimal notNull)
  | hexadecimal notNull value => exact not_mem_reference (standsFor_hexadecimal notNull value)

/-- No tag begins in a form of a text. -/
theorem not_mem_writes
    {s v : List Char}
    (h : Push.WritesText s v) :
    '<' ∉ v := by
  induction h with
  | nil => exact List.not_mem_nil
  | cons first rest ih =>
      intro hmem
      rcases List.mem_append.1 hmem with hmem | hmem
      · exact not_mem_writesChar first hmem
      · exact ih hmem

theorem resolveFrom_writes
    {s v : List Char}
    (h : Push.WritesText s v) :
    resolveFrom size index done v = .ok (done.reverse ++ s) := by
  induction h generalizing index done with
  | nil => simp [resolveFrom]
  | cons first rest ih =>
      obtain ⟨next, hnext⟩ := resolveFrom_writesChar first
      rw [hnext, ih]
      simp

/-- Every form of a text is read as the text. -/
theorem resolve_writes
    {s v : List Char}
    (h : Push.WritesText s v) :
    resolve v = .ok s :=
  resolveFrom_writes h

end Texts

end Reference
end Markup
end PushGate
