import Mathlib.Data.List.TakeWhile
import PushGate.Query

/-!
# Queries and how they are written

A list of parameters can be written as a query in many ways.  Each byte of a name or value may stand
for itself, unless it is a mark that means something else where it stands, or be written as a percent
sign with two hexadecimal digits of either case; a space may also be written as a plus.  A parameter
without a value may come without its equals sign, and pieces may be empty.

The plus is undone before the escapes are, so an escaped plus is none.  Whatever is written, no piece
holds the separator of the pieces and no name the equals sign, for neither is a hexadecimal digit.

**Results.**
* `WritesBytes.unescape_eq`: every form of some bytes is read as these bytes.
* `decodeText_of_writes`: every form of a text is read as the text.
* `parameters_of_writes`: every form of a query is read as its parameters.
-/

namespace PushGate
namespace Query

/-- The two parts of a piece. -/
inductive Part where
  | name
  | value

/-- The bytes that mean something else where they stand: `&`, `+`, `%`, `#`, and in a name `=`. -/
def Part.marks : Part → Bytes
  | .name => [0x26, 0x2B, 0x25, 0x23, 0x3D]
  | .value => [0x26, 0x2B, 0x25, 0x23]

/-- The forms of a byte. -/
inductive WritesByte (p : Part) : UInt8 → Bytes → Prop
  | plain
      {b : UInt8}
      (noMark : b ∉ p.marks) :
      WritesByte p b [b]
  | escaped
      {b high low : UInt8}
      (digits : [high, low].map (fun d => (Char.ofUInt8 d).toLower) = Hexadecimal.ofByte b) :
      WritesByte p b [0x25, high, low]
  | plus : WritesByte p 0x20 [0x2B]

/-- The forms of a byte sequence. -/
inductive WritesBytes (p : Part) : Bytes → Bytes → Prop
  | nil : WritesBytes p [] []
  | cons
      {b : UInt8} {s v w : Bytes}
      (first : WritesByte p b v)
      (rest : WritesBytes p s w) :
      WritesBytes p (b :: s) (v ++ w)

/-- The forms of a text. -/
def WritesText (p : Part) (s : String) (w : Bytes) : Prop :=
  WritesBytes p (Utf8.ofString s) w

/-- The forms of parameters as pieces. -/
inductive WritesPieces : List (String × String) → List Bytes → Prop
  | nil : WritesPieces [] []
  | empty
      {ps : List (String × String)} {pieces : List Bytes}
      (rest : WritesPieces ps pieces) :
      WritesPieces ps ([] :: pieces)
  | bare
      {name : String} {v : Bytes}
      {ps : List (String × String)} {pieces : List Bytes}
      (nonempty : name ≠ "")
      (first : WritesText .name name v)
      (rest : WritesPieces ps pieces) :
      WritesPieces ((name, "") :: ps) (v :: pieces)
  | pair
      {name value : String} {v w : Bytes}
      {ps : List (String × String)} {pieces : List Bytes}
      (first : WritesText .name name v)
      (second : WritesText .value value w)
      (rest : WritesPieces ps pieces) :
      WritesPieces ((name, value) :: ps) ((v ++ 0x3D :: w) :: pieces)

/-- The forms of a query with these parameters, in this order. -/
def Writes (ps : List (String × String)) (query : Bytes) : Prop :=
  ∃ pieces, WritesPieces ps pieces ∧ query = join 0x26 pieces

section Bytes

variable {p : Part} {b high low : UInt8} {s v w : Bytes}

/-- Both digits of an escape have the value that they should, in either case. -/
theorem value?_of_digits
    (h : [high, low].map (fun d => (Char.ofUInt8 d).toLower) = Hexadecimal.ofByte b) :
    Hexadecimal.value? (Char.ofUInt8 high) = some (b.toNat / 16) ∧
      Hexadecimal.value? (Char.ofUInt8 low) = some (b.toNat % 16) := by
  have hb : b.toNat < 256 := b.toNat_lt
  simp only [List.map_cons, List.map_nil, Hexadecimal.ofByte, List.cons.injEq, and_true] at h
  obtain ⟨hhigh, hlow⟩ := h
  constructor
  · rw [← Hexadecimal.value?_toLower, hhigh]
    exact Hexadecimal.value?_digit _ (by omega)
  · rw [← Hexadecimal.value?_toLower, hlow]
    exact Hexadecimal.value?_digit _ (by omega)

/-- A mark that is part of no form does not occur in what is written. -/
theorem WritesByte.not_mem
    {mark : UInt8}
    (h : WritesByte p b w)
    (hmark : mark ∈ p.marks)
    (hother : mark ≠ 0x25 ∧ mark ≠ 0x2B)
    (hdigit : Hexadecimal.value? (Char.ofUInt8 mark) = none) :
    mark ∉ w := by
  intro hmem
  cases h with
  | plain noMark => exact noMark (List.mem_singleton.1 hmem ▸ hmark)
  | @escaped _ high low digits =>
      obtain ⟨hhigh, hlow⟩ := value?_of_digits digits
      simp only [List.mem_cons, List.not_mem_nil, or_false] at hmem
      rcases hmem with rfl | rfl | rfl
      · exact hother.1 rfl
      · rw [hdigit] at hhigh
        cases hhigh
      · rw [hdigit] at hlow
        cases hlow
  | plus => exact hother.2 (List.mem_singleton.1 hmem)

theorem WritesBytes.not_mem
    {mark : UInt8}
    (h : WritesBytes p s w)
    (hmark : mark ∈ p.marks)
    (hother : mark ≠ 0x25 ∧ mark ≠ 0x2B)
    (hdigit : Hexadecimal.value? (Char.ofUInt8 mark) = none) :
    mark ∉ w := by
  induction h with
  | nil => exact List.not_mem_nil
  | cons first _ ih =>
      rw [List.mem_append, not_or]
      exact ⟨first.not_mem hmark hother hdigit, ih⟩

theorem WritesBytes.separator_not_mem
    (h : WritesBytes p s w) :
    0x26 ∉ w :=
  h.not_mem (by cases p <;> decide) (by decide) (by decide)

/-- What is written of a name ends at the first equals sign. -/
theorem WritesBytes.bne_equals
    (h : WritesBytes .name s w) :
    ∀ b ∈ w, (b != 0x3D) = true := by
  intro b hb
  rw [bne_iff_ne]
  rintro rfl
  exact h.not_mem (by decide) (by decide) (by decide) hb

/-- A digit is no plus, so it is left alone when pluses are undone. -/
theorem plusToSpace_of_value?
    {d : UInt8} {n : Nat}
    (h : Hexadecimal.value? (Char.ofUInt8 d) = some n) :
    plusToSpace d = d := by
  refine if_neg ?_
  rintro rfl
  cases h

/-- Every form of a byte is read as that byte. -/
theorem WritesByte.unescape_eq
    (h : WritesByte p b v)
    (rest : Bytes) :
    unescape ((v ++ rest).map plusToSpace) = b :: unescape (rest.map plusToSpace) := by
  cases h with
  | plain noMark =>
      have hplus : b ≠ 0x2B := by
        rintro rfl
        exact noMark (by cases p <;> decide)
      have hpercent : b ≠ 0x25 := by
        rintro rfl
        exact noMark (by cases p <;> decide)
      rw [List.singleton_append, List.map_cons, plusToSpace, if_neg hplus,
        unescape_cons hpercent]
  | @escaped _ high low digits =>
      obtain ⟨hhigh, hlow⟩ := value?_of_digits digits
      have hbyte : UInt8.ofNat (16 * (b.toNat / 16) + b.toNat % 16) = b := by
        rw [Nat.div_add_mod, UInt8.ofNat_toNat]
      simp only [List.cons_append, List.nil_append, List.map_cons]
      rw [plusToSpace_of_value? hhigh, plusToSpace_of_value? hlow]
      exact (unescape_escape hhigh hlow _).trans (by rw [hbyte])
  | plus => exact unescape_cons (by decide) _

theorem WritesBytes.unescape_eq
    (h : WritesBytes p s w) :
    unescape (w.map plusToSpace) = s := by
  induction h with
  | nil => rfl
  | cons first _ ih => rw [first.unescape_eq, ih]

/-- Bytes without marks may stand for themselves. -/
theorem writesBytes_self
    (h : ∀ b ∈ s, b ∉ p.marks) :
    WritesBytes p s s := by
  induction s with
  | nil => exact .nil
  | cons b s ih =>
      exact .cons (.plain (h b List.mem_cons_self))
        (ih fun c hc => h c (List.mem_cons_of_mem _ hc))

end Bytes

section Texts

variable {p : Part} {s name value : String} {v w : Bytes}

/-- Every form of a text is read as the text. -/
theorem decodeText_of_writes
    (h : WritesText p s w) :
    decodeText w = s := by
  rw [decodeText, h.unescape_eq, Utf8.lossy_ofString]

/-- Nothing is the form of the empty text. -/
theorem decodeText_nil : decodeText [] = "" :=
  decodeText_of_writes (p := .value) WritesBytes.nil

theorem ne_nil_of_writes
    (h : WritesText p s w)
    (hs : s ≠ "") :
    w ≠ [] := by
  rintro rfl
  exact hs ((decodeText_of_writes h).symm.trans decodeText_nil)

/-- A piece without an equals sign is a name with an empty value. -/
theorem pair_bare
    (h : WritesText .name name v) :
    pair v = (name, "") := by
  rw [pair, List.takeWhile_eq_self_iff.2 h.bne_equals, List.dropWhile_eq_nil_iff.2 h.bne_equals,
    List.tail_nil, decodeText_of_writes h, decodeText_nil]

/-- The first equals sign ends the name; further ones belong to the value. -/
theorem pair_equals
    (hname : WritesText .name name v)
    (hvalue : WritesText .value value w) :
    pair (v ++ 0x3D :: w) = (name, value) := by
  have hfirst : (v ++ 0x3D :: w).takeWhile (· != 0x3D) = v := by
    rw [List.takeWhile_append_of_pos hname.bne_equals]
    exact List.append_nil v
  have hrest : (v ++ 0x3D :: w).dropWhile (· != 0x3D) = 0x3D :: w := by
    rw [List.dropWhile_append_of_pos hname.bne_equals]
    rfl
  rw [pair, hfirst, hrest, List.tail_cons, decodeText_of_writes hname,
    decodeText_of_writes hvalue]

end Texts

section Pieces

variable {ps : List (String × String)} {pieces : List Bytes} {query : Bytes}

theorem WritesPieces.separator_not_mem
    (h : WritesPieces ps pieces) :
    ∀ piece ∈ pieces, 0x26 ∉ piece := by
  induction h with
  | nil =>
      intro piece hpiece
      cases hpiece
  | empty _ ih => exact List.forall_mem_cons.2 ⟨List.not_mem_nil, ih⟩
  | bare _ first _ ih => exact List.forall_mem_cons.2 ⟨first.separator_not_mem, ih⟩
  | pair first second _ ih =>
      refine List.forall_mem_cons.2 ⟨?_, ih⟩
      rw [List.mem_append, List.mem_cons]
      rintro (hmem | hmem | hmem)
      · exact first.separator_not_mem hmem
      · cases hmem
      · exact second.separator_not_mem hmem

theorem WritesPieces.map_eq
    (h : WritesPieces ps pieces) :
    (pieces.filter (· != [])).map Query.pair = ps := by
  induction h with
  | nil => rfl
  | empty _ ih => exact ih
  | @bare _ v _ _ nonempty first _ ih =>
      have hne : (v != []) = true := bne_iff_ne.2 (ne_nil_of_writes first nonempty)
      simp only [List.filter_cons, hne, if_true, List.map_cons, pair_bare first, ih]
  | @pair _ _ v w _ _ first second _ ih =>
      have hne : (v ++ 0x3D :: w != []) = true := bne_iff_ne.2 (by simp)
      simp only [List.filter_cons, hne, if_true, List.map_cons, pair_equals first second, ih]

/-- **Reading undoes writing.**  Every form of a query is read as its parameters. -/
theorem parameters_of_writes
    (h : Writes ps query) :
    parameters query = ps := by
  obtain ⟨pieces, hpieces, rfl⟩ := h
  by_cases hnone : pieces = []
  · subst hnone
    exact hpieces.map_eq
  · rw [parameters, splitOn_join hnone hpieces.separator_not_mem, hpieces.map_eq]

end Pieces

end Query
end PushGate
