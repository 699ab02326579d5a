import PushGate.Decimal
import PushGate.Text.Blank

/-!
# Spellings of whole numbers

A number can be spelled in many ways: digits with any number of leading zeros, behind one sign or none,
with blanks around them.  Its value is that of the digits, of any size; reading knows no range until the
whole number has been read.

**Results.**
* `signed?_eq_some_iff`: the texts that are read as a number are its spellings.
* `signed?_trim_eq_some_iff`: so are the texts around which blanks have been trimmed.
* `unsigned?_trim_eq_some_iff`: the same of numbers that have no minus.
* `spells_toString`: a number written in decimal is one of its spellings.
-/

namespace PushGate

/-- Trimming takes blanks off both ends. -/
theorem Text.exists_surround
    (content : List Char) :
    ∃ before after,
      content = before ++ trim content ++ after ∧
        (∀ c ∈ before, isBlank c = true) ∧
        ∀ c ∈ after, isBlank c = true := by
  obtain ⟨after, hafter, hblank⟩ := exists_append_trimEnd (content.dropWhile isBlank)
  refine ⟨content.takeWhile isBlank, after, ?_, ?_, hblank⟩
  · rw [List.append_assoc, trim, ← hafter, List.takeWhile_append_dropWhile]
  · exact fun c hc => List.all_eq_true.1 List.all_takeWhile c hc

namespace Decimal

/-- One or more ASCII digits, and the number that they make. -/
structure Digits
    (text : List Char)
    (n : Nat) : Prop where
  nonempty : text ≠ []
  isDigit : ∀ c ∈ text, c.isDigit = true
  value : Nat.ofDigitChars 10 text 0 = n

/-- The spellings of a whole number. -/
inductive Spells : List Char → Int → Prop
  | unsigned
      {text : List Char} {n : Nat}
      (digits : Digits text n) :
      Spells text n
  | plus
      {text : List Char} {n : Nat}
      (digits : Digits text n) :
      Spells ('+' :: text) n
  | minus
      {text : List Char} {n : Nat}
      (digits : Digits text n) :
      Spells ('-' :: text) (-n)

/-- The spellings of a number without a minus. -/
inductive SpellsUnsigned : List Char → Nat → Prop
  | bare
      {text : List Char} {n : Nat}
      (digits : Digits text n) :
      SpellsUnsigned text n
  | plus
      {text : List Char} {n : Nat}
      (digits : Digits text n) :
      SpellsUnsigned ('+' :: text) n

/-- A text is a spelling of a number with blanks before and after it. -/
def Denotes
    (content : List Char)
    (n : Int) : Prop :=
  ∃ before text after,
    content = before ++ text ++ after ∧
      (∀ c ∈ before, Text.isBlank c = true) ∧
      (∀ c ∈ after, Text.isBlank c = true) ∧
      Spells text n

/-- A text is a spelling without a minus, with blanks before and after it. -/
def DenotesUnsigned
    (content : List Char)
    (n : Nat) : Prop :=
  ∃ before text after,
    content = before ++ text ++ after ∧
      (∀ c ∈ before, Text.isBlank c = true) ∧
      (∀ c ∈ after, Text.isBlank c = true) ∧
      SpellsUnsigned text n

section Spellings

variable {text content : List Char} {n : Int} {m : Nat}

theorem digits?_eq_some_iff_digits :
    digits? text = some m ↔ Digits text m := by
  rw [digits?_eq_some_iff]
  exact ⟨fun ⟨hne, hdigit, hvalue⟩ => ⟨hne, hdigit, hvalue⟩,
    fun h => ⟨h.nonempty, h.isDigit, h.value⟩⟩

/-- The texts that are read as a number are its spellings. -/
theorem signed?_eq_some_iff :
    signed? text = some n ↔ Spells text n := by
  constructor
  · intro h
    unfold signed? at h
    split at h <;>
      obtain ⟨value, hvalue, rfl⟩ := Option.map_eq_some_iff.1 h <;>
        obtain ⟨m, hdigits, hm⟩ := Option.bind_eq_some_iff.1 hvalue <;>
          cases hm
    · exact .plus (digits?_eq_some_iff_digits.1 hdigits)
    · exact .minus (digits?_eq_some_iff_digits.1 hdigits)
    · exact .unsigned (digits?_eq_some_iff_digits.1 hdigits)
  · intro h
    cases h with
    | unsigned digits =>
        rw [signed?_of_digits digits.isDigit, digits?_eq_some_iff_digits.2 digits]
        rfl
    | plus digits =>
        rw [signed?, digits?_eq_some_iff_digits.2 digits]
        rfl
    | minus digits =>
        rw [signed?, digits?_eq_some_iff_digits.2 digits]
        rfl

/-- A spelling holds digits and signs only. -/
theorem Spells.mem
    {c : Char}
    (h : Spells text n)
    (hc : c ∈ text) :
    c.isDigit = true ∨ c = '+' ∨ c = '-' := by
  cases h with
  | unsigned digits => exact .inl (digits.isDigit c hc)
  | plus digits =>
      rcases List.mem_cons.1 hc with rfl | hc
      · exact .inr (.inl rfl)
      · exact .inl (digits.isDigit c hc)
  | minus digits =>
      rcases List.mem_cons.1 hc with rfl | hc
      · exact .inr (.inr rfl)
      · exact .inl (digits.isDigit c hc)

theorem Spells.ne_nil
    (h : Spells text n) :
    text ≠ [] := by
  cases h with
  | unsigned digits => exact digits.nonempty
  | plus digits => exact List.cons_ne_nil _ _
  | minus digits => exact List.cons_ne_nil _ _

/-- Neither a digit nor a sign is a blank. -/
theorem Spells.not_isBlank
    (h : Spells text n) :
    ∀ c ∈ text, Text.isBlank c = false := by
  intro c hc
  rcases h.mem hc with hdigit | rfl | rfl
  · have hrange : ∀ code < 58, 48 ≤ code → Text.blankCodes.contains code = false := by
      decide
    obtain ⟨hlow, hhigh⟩ := Char.isDigit_iff_toNat.1 hdigit
    exact hrange c.toNat (Nat.lt_succ_of_le hhigh) hlow
  · decide
  · decide

theorem Spells.trim_eq
    (h : Spells text n) :
    Text.trim text = text :=
  Text.trim_eq_self (fun c hc => h.not_isBlank c (List.mem_of_head? hc))
    (fun c hc => h.not_isBlank c (List.mem_of_getLast? hc))

/-- A text is a spelling once the blanks around it have been trimmed. -/
theorem signed?_trim_eq_some_iff :
    signed? (Text.trim content) = some n ↔ Denotes content n := by
  rw [signed?_eq_some_iff]
  constructor
  · intro h
    obtain ⟨before, after, hsplit, hbefore, hafter⟩ := Text.exists_surround content
    exact ⟨before, Text.trim content, after, hsplit, hbefore, hafter, h⟩
  · rintro ⟨before, text, after, rfl, hbefore, hafter, hspells⟩
    rw [Text.trim_surround hbefore hafter, hspells.trim_eq]
    exact hspells

/-- A number written in decimal is one of its spellings. -/
theorem spells_toString (n : Int) :
    Spells (toString n).toList n := by
  rw [← signed?_eq_some_iff]
  cases n with
  | ofNat m =>
      have hdigits : (toString (Int.ofNat m)).toList = Nat.toDigits 10 m :=
        String.toList_ofList
      rw [hdigits]
      exact (signed?_toDigits m).1
  | negSucc m =>
      have hdigits : (toString (Int.negSucc m)).toList = '-' :: Nat.toDigits 10 (m + 1) := by
        change ("-" ++ Nat.repr (m + 1)).toList = _
        rw [String.toList_append]
        exact congrArg ('-' :: ·) String.toList_ofList
      rw [hdigits]
      exact (signed?_toDigits (m + 1)).2

theorem Spells.denotes
    (h : Spells text n) :
    Denotes text n := by
  refine ⟨[], text, [], ?_, nofun, nofun, h⟩
  rw [List.nil_append, List.append_nil]

/-- Without a minus, a number has no spellings but those that it has anyway. -/
theorem SpellsUnsigned.spells
    (h : SpellsUnsigned text m) :
    Spells text m := by
  cases h with
  | bare digits => exact .unsigned digits
  | plus digits => exact .plus digits

theorem unsigned?_eq_some_iff :
    unsigned? text = some m ↔ SpellsUnsigned text m := by
  constructor
  · intro h
    unfold unsigned? at h
    split at h
    · exact .plus (digits?_eq_some_iff_digits.1 h)
    · exact .bare (digits?_eq_some_iff_digits.1 h)
  · intro h
    cases h with
    | bare digits =>
        rw [unsigned?_of_digits digits.isDigit, digits?_eq_some_iff_digits.2 digits]
    | plus digits => rw [unsigned?, digits?_eq_some_iff_digits.2 digits]

/-- A text is a spelling without a minus once the blanks around it have been trimmed. -/
theorem unsigned?_trim_eq_some_iff :
    unsigned? (Text.trim content) = some m ↔ DenotesUnsigned content m := by
  rw [unsigned?_eq_some_iff]
  constructor
  · intro h
    obtain ⟨before, after, hsplit, hbefore, hafter⟩ := Text.exists_surround content
    exact ⟨before, Text.trim content, after, hsplit, hbefore, hafter, h⟩
  · rintro ⟨before, text, after, rfl, hbefore, hafter, hspells⟩
    rw [Text.trim_surround hbefore hafter, hspells.spells.trim_eq]
    exact hspells

end Spellings

end Decimal
end PushGate
