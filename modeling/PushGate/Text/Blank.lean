/-!
# Blank characters

The twenty-five characters with the Unicode property `White_Space`, and what it means to trim a
text of them.  Settings and numbers are read without the blanks around them.

**Results.**
* `trim_trim`: trimming twice is trimming once.
* `head_trim_not_blank`, `getLast_trim_not_blank`: a trimmed text neither begins nor ends blank.
* `trim_surround`: blanks put around a text make no difference to the trimmed text.
-/

namespace PushGate
namespace Text

/-- The code points with the property `White_Space`. -/
def blankCodes : List Nat :=
  [0x09, 0x0A, 0x0B, 0x0C, 0x0D, 0x20, 0x85, 0xA0, 0x1680, 0x2000, 0x2001, 0x2002, 0x2003,
    0x2004, 0x2005, 0x2006, 0x2007, 0x2008, 0x2009, 0x200A, 0x2028, 0x2029, 0x202F, 0x205F,
    0x3000]

/-- Whether a character is white space. -/
def isBlank (c : Char) : Bool :=
  blankCodes.contains c.toNat

/-- A text without the blanks at its end. -/
def trimEnd (text : List Char) : List Char :=
  (text.reverse.dropWhile isBlank).reverse

/-- A text without the blanks at its ends. -/
def trim (text : List Char) : List Char :=
  trimEnd (text.dropWhile isBlank)

/-! ## What trimming leaves -/

@[simp] theorem trim_nil : trim [] = [] := rfl

theorem dropWhile_eq_nil_iff {p : Char → Bool} {text : List Char} :
    text.dropWhile p = [] ↔ ∀ c ∈ text, p c = true := by
  induction text with
  | nil => simp
  | cons c text ih =>
      by_cases h : p c = true
      · rw [List.dropWhile_cons_of_pos h, ih]
        simp [h]
      · rw [List.dropWhile_cons_of_neg h]
        simp [h]

theorem trimEnd_eq_nil_iff {text : List Char} :
    trimEnd text = [] ↔ ∀ c ∈ text, isBlank c = true := by
  rw [trimEnd, List.reverse_eq_nil_iff, dropWhile_eq_nil_iff]
  simp

/-- Trimming leaves nothing exactly of blank text. -/
theorem trim_eq_nil_iff {text : List Char} : trim text = [] ↔ ∀ c ∈ text, isBlank c = true := by
  induction text with
  | nil => simp
  | cons c text ih =>
      by_cases h : isBlank c = true
      · rw [trim, List.dropWhile_cons_of_pos h, ← trim, ih]
        simp [h]
      · rw [trim, List.dropWhile_cons_of_neg h, trimEnd_eq_nil_iff]

theorem dropWhile_append_of_all {p : Char → Bool} {s t : List Char} (h : ∀ c ∈ s, p c = true) :
    (s ++ t).dropWhile p = t.dropWhile p := by
  induction s with
  | nil => rfl
  | cons c s ih =>
      rw [List.cons_append, List.dropWhile_cons_of_pos (h c (by simp))]
      exact ih fun d hd => h d (by simp [hd])

theorem trimEnd_append_blank {text blanks : List Char} (h : ∀ c ∈ blanks, isBlank c = true) :
    trimEnd (text ++ blanks) = trimEnd text := by
  rw [trimEnd, List.reverse_append, dropWhile_append_of_all (by simpa using h), trimEnd]

/-- Blanks after a text make no difference. -/
theorem trim_append_blank {text blanks : List Char} (h : ∀ c ∈ blanks, isBlank c = true) :
    trim (text ++ blanks) = trim text := by
  induction text with
  | nil => simpa [trim_eq_nil_iff] using h
  | cons c text ih =>
      by_cases hc : isBlank c = true
      · simpa [trim, List.dropWhile_cons_of_pos hc] using ih
      · simp only [trim, List.cons_append, List.dropWhile_cons_of_neg hc]
        rw [← List.cons_append, trimEnd_append_blank h]

/-- Blanks put around a text make no difference. -/
theorem trim_surround {before text after : List Char} (hb : ∀ c ∈ before, isBlank c = true)
    (ha : ∀ c ∈ after, isBlank c = true) : trim (before ++ text ++ after) = trim text := by
  rw [trim_append_blank ha, trim, dropWhile_append_of_all hb, trim]

theorem head_dropWhile_not {p : Char → Bool} {s : List Char} {c : Char}
    (h : (s.dropWhile p).head? = some c) : p c = false := by
  induction s with
  | nil => simp at h
  | cons d s ih =>
      by_cases hd : p d = true
      · exact ih (by simpa [List.dropWhile_cons_of_pos hd] using h)
      · rw [List.dropWhile_cons_of_neg hd] at h
        simp only [List.head?_cons, Option.some.injEq] at h
        subst h
        simpa using hd

/-- A trimmed text does not end in a blank. -/
theorem getLast_trim_not_blank {text : List Char} {c : Char} (h : (trim text).getLast? = some c) :
    isBlank c = false := by
  rw [trim, trimEnd, List.getLast?_reverse] at h
  exact head_dropWhile_not h

theorem trimEnd_eq_self {text : List Char}
    (h : ∀ c, text.getLast? = some c → isBlank c = false) : trimEnd text = text := by
  rw [trimEnd]
  cases hr : text.reverse with
  | nil => simpa using hr.symm
  | cons c rest =>
      have hlast : text.getLast? = some c := by
        rw [← List.reverse_reverse text, hr]
        simp
      rw [List.dropWhile_cons_of_neg (by simp [h c hlast]), ← hr, List.reverse_reverse]

theorem exists_append_trimEnd (text : List Char) :
    ∃ blanks, text = trimEnd text ++ blanks ∧ ∀ c ∈ blanks, isBlank c = true := by
  refine ⟨(text.reverse.takeWhile isBlank).reverse, ?_, ?_⟩
  · rw [trimEnd, ← List.reverse_append, List.takeWhile_append_dropWhile, List.reverse_reverse]
  · intro c hc
    exact List.all_eq_true.1 List.all_takeWhile c (by simpa using hc)

/-- A trimmed text does not begin with a blank. -/
theorem head_trim_not_blank {text : List Char} {c : Char} (h : (trim text).head? = some c) :
    isBlank c = false := by
  obtain ⟨blanks, heq, _⟩ := exists_append_trimEnd (text.dropWhile isBlank)
  apply head_dropWhile_not (p := isBlank) (s := text) (c := c)
  rw [heq]
  rw [trim] at h
  cases ht : trimEnd (text.dropWhile isBlank) with
  | nil => simp [ht] at h
  | cons d rest => simpa [ht] using h

/-- A text that neither begins nor ends blank is trimmed. -/
theorem trim_eq_self {text : List Char} (hhead : ∀ c, text.head? = some c → isBlank c = false)
    (hlast : ∀ c, text.getLast? = some c → isBlank c = false) : trim text = text := by
  rw [trim]
  cases text with
  | nil => rfl
  | cons c rest =>
      rw [List.dropWhile_cons_of_neg (by simp [hhead c rfl])]
      exact trimEnd_eq_self hlast

/-- Trimming twice is trimming once. -/
@[simp] theorem trim_trim (text : List Char) : trim (trim text) = trim text :=
  trim_eq_self (fun _ => head_trim_not_blank) (fun _ => getLast_trim_not_blank)

end Text
end PushGate
