import PushGate.Proofs.Markup.Pieces
import PushGate.Proofs.Push.Basic

/-!
# Reading written markup

The reader goes through bytes, and markup is written in characters.  What leads from one to the
other is that an ASCII character is one byte, which occurs in no other character: the reader's marks
stand in the bytes of a text exactly where they stand in the text.

**Results.**
* `encode_prefix_iff`: a text begins with another exactly if its bytes do.
* `breakOn_encode`: the first mark in the bytes is the first in the text.
* `next_text`, `next_start`, `next_stop`, `next_cdata`, `next_comment`: one event for each thing
  that is written.
-/

namespace PushGate

open Utf8 (encode)

namespace Utf8

theorem le_toNat_ofNat
    {n : Nat}
    (hlow : 0x80 ≤ n)
    (hhigh : n < 256) :
    0x80 ≤ (UInt8.ofNat n).toNat := by
  rw [toNat_ofNat hhigh]
  exact hlow

/-- A character that takes more than one byte has none of ASCII. -/
theorem le_toNat_of_mem_encodeChar
    {c : Char}
    {b : UInt8}
    (hc : 0x80 ≤ c.toNat)
    (hb : b ∈ String.utf8EncodeChar c) :
    0x80 ≤ b.toNat := by
  have hvalid := toNat_valid c
  rw [encodeChar_eq, if_neg (by omega)] at hb
  split at hb
  · simp only [List.mem_cons, List.not_mem_nil, or_false] at hb
    rcases hb with rfl | rfl
    · exact le_toNat_ofNat (by omega) (by omega)
    · exact le_toNat_ofNat (by omega) (by omega)
  split at hb
  · simp only [List.mem_cons, List.not_mem_nil, or_false] at hb
    rcases hb with rfl | rfl | rfl
    · exact le_toNat_ofNat (by omega) (by omega)
    · exact le_toNat_ofNat (by omega) (by omega)
    · exact le_toNat_ofNat (by omega) (by omega)
  · simp only [List.mem_cons, List.not_mem_nil, or_false] at hb
    rcases hb with rfl | rfl | rfl | rfl
    · exact le_toNat_ofNat (by omega) (by omega)
    · exact le_toNat_ofNat (by omega) (by omega)
    · exact le_toNat_ofNat (by omega) (by omega)
    · exact le_toNat_ofNat (by omega) (by omega)

theorem toNat_of_encodeChar
    {c : Char}
    {b : UInt8}
    (hb : String.utf8EncodeChar c = [b]) :
    c.toNat = b.toNat ∧ c.toNat < 0x80 := by
  have hc : c.toNat < 0x80 := by
    rw [encodeChar_eq] at hb
    split at hb
    · assumption
    split at hb
    · cases hb
    split at hb
    · cases hb
    · cases hb
  rw [encodeChar_eq, if_pos hc] at hb
  cases hb
  exact ⟨(toNat_ofNat (by omega)).symm, hc⟩

/-- A byte of ASCII stands in the bytes of a text only for its character. -/
theorem mem_of_mem_encode
    {c : Char}
    {b : UInt8}
    {s : List Char}
    (hb : String.utf8EncodeChar c = [b])
    (h : b ∈ encode s) :
    c ∈ s := by
  obtain ⟨hcb, hc⟩ := toNat_of_encodeChar hb
  obtain ⟨d, hd, hbd⟩ := List.mem_flatMap.1 h
  rcases Nat.lt_or_ge d.toNat 0x80 with hlt | hge
  · rw [encodeChar_eq, if_pos hlt, List.mem_singleton] at hbd
    rw [hbd, toNat_ofNat (by omega)] at hcb
    rw [← ofNat_toNat c, hcb, ofNat_toNat]
    exact hd
  · have := le_toNat_of_mem_encodeChar hge hbd
    omega

/-- A text begins with another exactly if its bytes do. -/
theorem encode_prefix_iff {m s : List Char} : encode m <+: encode s ↔ m <+: s := by
  constructor
  · intro h
    induction m generalizing s with
    | nil => exact List.nil_prefix
    | cons c m ih =>
        obtain ⟨t, ht⟩ := h
        obtain ⟨b, bytes, hcons, hfront⟩ := front_encodeChar c (encode m ++ t)
        rw [encode_cons, List.append_assoc, hcons] at ht
        cases s with
        | nil => cases ht
        | cons d s =>
            obtain ⟨b', bytes', hcons', hfront'⟩ := front_encodeChar d (encode s)
            rw [encode_cons, hcons'] at ht
            cases ht
            rw [hfront] at hfront'
            injection hfront' with hchar hrest
            obtain ⟨u, hu⟩ := ih ⟨t, hrest⟩
            exact ⟨u, by rw [hchar, ← hu]; rfl⟩
  · rintro ⟨t, rfl⟩
    exact ⟨encode t, (encode_append m t).symm⟩

end Utf8

namespace Markup

section Cutting

variable {c : Char} {b : UInt8} {s rest : List Char}

theorem bne_of_mem_encode
    (hb : String.utf8EncodeChar c = [b])
    (hs : c ∉ s) :
    ∀ a ∈ encode s, (a != b) = true := by
  intro a ha
  rw [bne_iff_ne]
  rintro rfl
  exact hs (Utf8.mem_of_mem_encode hb ha)

theorem after?_encode (word : String) :
    after? word (encode (word.toList ++ rest)) = some (encode rest) := by
  simp [after?, Utf8.ofString, Utf8.encode_append]

theorem breakOn_append
    {mark done bytes more : Bytes}
    (h : ∀ a ∈ bytes, a ≠ b) :
    breakOn (b :: mark) done (bytes ++ more) =
      breakOn (b :: mark) (bytes.reverse ++ done) more := by
  induction bytes generalizing done with
  | nil => rfl
  | cons a bytes ih =>
      have hab : ¬ b :: mark <+: a :: (bytes ++ more) := by
        rw [List.cons_prefix_cons]
        exact fun hpre => h a List.mem_cons_self hpre.1.symm
      rw [List.cons_append, breakOn_cons hab]
      rw [ih fun d hd => h d (List.mem_cons_of_mem _ hd)]
      simp

theorem breakOn_encodeChar
    {mark : List Char}
    {done : Bytes}
    {d : Char}
    (hb : String.utf8EncodeChar c = [b])
    (h : ¬ c :: mark <+: d :: rest) :
    breakOn (encode (c :: mark)) done (encode (d :: rest)) =
      breakOn (encode (c :: mark)) ((String.utf8EncodeChar d).reverse ++ done) (encode rest) := by
  by_cases hd : b ∈ String.utf8EncodeChar d
  · have hcd : c ∈ [d] := by
      refine Utf8.mem_of_mem_encode hb ?_
      simpa [encode] using hd
    rw [← List.mem_singleton.1 hcd] at h ⊢
    rw [← Utf8.encode_prefix_iff] at h
    rw [Utf8.encode_cons c rest, hb] at h ⊢
    exact breakOn_cons h
  · rw [Utf8.encode_cons c, Utf8.encode_cons d, hb]
    refine breakOn_append ?_
    rintro a ha rfl
    exact hd ha

/-- The first occurrence of a mark in the bytes is the first in the text. -/
theorem breakOn_encode
    {mark : List Char}
    {done : Bytes}
    (hb : String.utf8EncodeChar c = [b])
    (hfree : ∀ u, u ≠ [] → u <:+ s → ¬ c :: mark <+: u ++ (c :: mark ++ rest)) :
    breakOn (encode (c :: mark)) done (encode (s ++ (c :: mark ++ rest))) =
      some (done.reverse ++ encode s, encode rest) := by
  induction s generalizing done with
  | nil =>
      rw [List.nil_append, Utf8.encode_append, Utf8.encode_cons, hb]
      simpa using breakOn_of_prefix
  | cons d s ih =>
      have hd := hfree (d :: s) (List.cons_ne_nil _ _) (List.suffix_refl _)
      rw [List.cons_append] at hd ⊢
      rw [breakOn_encodeChar hb hd]
      rw [ih fun u hne hu => hfree u hne (hu.trans (List.suffix_cons ..))]
      simp [Utf8.encode_cons]

/-- A section ends at its mark, which is a character twice and a closing bracket, unless the mark
stands in the section. -/
theorem breakOn_section
    (hb : String.utf8EncodeChar c = [b])
    (hc : c ≠ '>')
    (hs : ¬ [c, c, '>'] <:+: s) :
    breakOn (encode [c, c, '>']) [] (encode (s ++ ([c, c, '>'] ++ rest))) =
      some (encode s, encode rest) := by
  refine breakOn_encode hb ?_
  intro u hne hu hpre
  -- the mark cannot begin in the section and end in the mark behind it
  match u, hu, hpre with
  | [], _, _ => exact hne rfl
  | [_], _, hpre => simp [hc.symm] at hpre
  | [_, _], _, hpre => simp [hc.symm] at hpre
  | x :: y :: z :: u, hu, hpre =>
      have hmark : [c, c, '>'] <+: x :: y :: z :: u := by simpa using hpre
      exact hs (hmark.isInfix.trans hu.isInfix)

end Cutting

section Names

variable {name : List Char} {a b : UInt8}

/-- A byte of a name. -/
def isNameByte (b : UInt8) : Bool :=
  (Char.ofNat b.toNat).isAlphanum || b == 0x5F

theorem toNat_lt_of_isAlphanum
    {c : Char}
    (h : c.isAlphanum = true) :
    c.toNat < 0x80 := by
  have hle : ∀ d : Char, c.val ≤ d.val → c.toNat ≤ d.toNat := fun _ h => h
  have hkinds : (c.isUpper || c.isLower) = true ∨ c.isDigit = true := (Bool.or_eq_true ..).mp h
  rcases hkinds with hletter | hdigit
  · have hcases : c.isUpper = true ∨ c.isLower = true := (Bool.or_eq_true ..).mp hletter
    rcases hcases with hupper | hlower
    · have hrange : 'A'.val ≤ c.val ∧ c.val ≤ 'Z'.val := of_decide_eq_true hupper
      exact Nat.lt_of_le_of_lt (hle 'Z' hrange.2) (by decide)
    · have hrange : (decide ('a'.val ≤ c.val) && decide (c.val ≤ 'z'.val)) = true := hlower
      rw [Bool.and_eq_true, decide_eq_true_eq, decide_eq_true_eq] at hrange
      exact Nat.lt_of_le_of_lt (hle 'z' hrange.2) (by decide)
  · exact Nat.lt_of_le_of_lt (Char.isDigit_iff_toNat.1 hdigit).2 (by decide)

theorem isNameByte_of_mem
    (h : Push.IsName name)
    (hb : b ∈ encode name) :
    isNameByte b = true := by
  obtain ⟨c, hc, hbc⟩ := List.mem_flatMap.1 hb
  rcases h.2 c hc with halnum | rfl
  · have hascii := toNat_lt_of_isAlphanum halnum
    rw [Utf8.encodeChar_eq, if_pos hascii, List.mem_singleton] at hbc
    rw [hbc, isNameByte, Utf8.toNat_ofNat (by omega), Utf8.ofNat_toNat, halnum]
    rfl
  · rw [List.mem_singleton.1 hbc]
    decide

theorem ne_of_mem_name
    (h : Push.IsName name)
    (ha : isNameByte a = false)
    (hb : b ∈ encode name) :
    b ≠ a := by
  rintro rfl
  rw [isNameByte_of_mem h hb] at ha
  cases ha

/-- A written name stands in a tag as the name of an element. -/
theorem isTagName_encode
    (h : Push.IsName name) :
    IsTagName (encode name) := by
  constructor
  · intro hnil
    exact h.1 (Utf8.encode_injective (hnil.trans Utf8.encode_nil.symm))
  · intro b hb
    have hspace : b ≠ 0x20 := ne_of_mem_name h rfl hb
    have htab : b ≠ 0x09 := ne_of_mem_name h rfl hb
    have hreturn : b ≠ 0x0D := ne_of_mem_name h rfl hb
    have hfeed : b ≠ 0x0A := ne_of_mem_name h rfl hb
    have hclosing : b ≠ closing := ne_of_mem_name h rfl hb
    have hslash : b ≠ slash := ne_of_mem_name h rfl hb
    have hquestion : b ≠ question := ne_of_mem_name h rfl hb
    have hbang : b ≠ bang := ne_of_mem_name h rfl hb
    have hdouble : b ≠ 0x22 := ne_of_mem_name h rfl hb
    have hsingle : b ≠ 0x27 := ne_of_mem_name h rfl hb
    simp [isTagByte, isBlankByte, hspace, htab, hreturn, hfeed, hclosing, hslash, hquestion, hbang,
      hdouble, hsingle]

theorem localName_encode (h : Push.IsName name) : localName (encode name) = encode name := by
  have hfree : ∀ b ∈ encode name, (b != 0x3A) = true := by
    intro b hb
    rw [bne_iff_ne]
    exact ne_of_mem_name h rfl hb
  have hnil : (encode name).dropWhile (· != 0x3A) = [] := by
    rw [← List.append_nil (encode name), List.dropWhile_append_of_pos hfree]
    rfl
  rw [localName, hnil]

end Names

/-! ## Events -/

namespace Reader

section Events

variable {s name rest : List Char} {opened : List Bytes}

/-- Text, up to the next markup. -/
theorem next_text
    (hne : s ≠ [])
    (hs : '<' ∉ s) :
    next ⟨encode (s ++ '<' :: rest), opened⟩ =
      .ok (some (.text (encode s), ⟨encode ('<' :: rest), opened⟩)) := by
  have hcontent : ∀ b ∈ encode s, b ≠ opening :=
    fun b hb => bne_iff_ne.1 (bne_of_mem_encode rfl hs b hb)
  rw [Utf8.encode_append]
  exact next_content (fun h => hne (Utf8.encode_injective h)) hcontent rfl

/-- A start tag. -/
theorem next_start (hname : Push.IsName name) :
    next ⟨encode ('<' :: (name ++ '>' :: rest)), opened⟩ =
      .ok (some (.start (encode name), ⟨encode rest, encode name :: opened⟩)) := by
  have hinput : encode ('<' :: (name ++ '>' :: rest)) =
      startTagOf (encode name) ++ encode rest := by
    rw [Utf8.encode_cons, Utf8.encode_append, startTagOf, List.cons_append, List.append_assoc]
    rfl
  rw [hinput]
  exact next_startTagOf (isTagName_encode hname)

/-- The end tag of the innermost open element. -/
theorem next_stop (hname : Push.IsName name) :
    next ⟨encode ('<' :: '/' :: (name ++ '>' :: rest)), encode name :: opened⟩ =
      .ok (some (.stop (encode name), ⟨encode rest, opened⟩)) := by
  have hinput : encode ('<' :: '/' :: (name ++ '>' :: rest)) =
      endTagOf (encode name) ++ encode rest := by
    rw [Utf8.encode_cons, Utf8.encode_cons, Utf8.encode_append, endTagOf]
    simp only [List.cons_append, List.append_assoc]
    rfl
  rw [hinput]
  exact next_endTagOf (isTagName_encode hname)

theorem append_marks (before s after rest : List Char) :
    before ++ (s ++ after) ++ rest = before ++ (s ++ (after ++ rest)) := by
  simp only [List.append_assoc]

theorem encode_cdataMark (s : List Char) :
    encode ("<![CDATA[".toList ++ s) = opening :: bang :: encode ("[CDATA[".toList ++ s) := rfl

theorem encode_cdataSection (s rest : List Char) :
    encode (Push.cdataSection s ++ rest) =
      opening :: bang :: encode ("[CDATA[".toList ++ (s ++ ("]]>".toList ++ rest))) :=
  (congrArg encode (append_marks "<![CDATA[".toList s "]]>".toList rest)).trans
    (encode_cdataMark _)

theorem encode_commentMark (s : List Char) :
    encode ("<!--".toList ++ s) = opening :: bang :: encode ("--".toList ++ s) := rfl

theorem encode_commentSection (s rest : List Char) :
    encode (Push.commentSection s ++ rest) =
      opening :: bang :: encode ("--".toList ++ (s ++ ("-->".toList ++ rest))) :=
  (congrArg encode (append_marks "<!--".toList s "-->".toList rest)).trans
    (encode_commentMark _)

/-- A CDATA section. -/
theorem next_cdata (hs : ¬ "]]>".toList <:+: s) :
    next ⟨encode (Push.cdataSection s ++ rest), opened⟩ =
      .ok (some (.cdata (encode s), ⟨encode rest, opened⟩)) := by
  have hcut :
      breakOn (encode "]]>".toList) [] (encode (s ++ ("]]>".toList ++ rest))) =
        some (encode s, encode rest) :=
    breakOn_section (c := ']') rfl (by decide) hs
  have hcdata : cdata (encode ("[CDATA[".toList ++ (s ++ ("]]>".toList ++ rest)))) =
      .ok (.cdata (encode s), encode rest) := by
    rw [cdata, after?_encode]
    simp only [Option.bind_some, Utf8.ofString, hcut]
  rw [encode_cdataSection]
  exact next_declaration hcdata

/-- A comment. -/
theorem next_comment (hs : '>' ∉ s) :
    next ⟨encode (Push.commentSection s ++ rest), opened⟩ =
      .ok (some (.comment, ⟨encode rest, opened⟩)) := by
  have hfree : ¬ ['-', '-', '>'] <:+: s := fun hmark => hs (hmark.subset (by simp))
  have hcut :
      breakOn (encode "-->".toList) [] (encode (s ++ ("-->".toList ++ rest))) =
        some (encode s, encode rest) :=
    breakOn_section (c := '-') rfl (by decide) hfree
  have hcomment : comment (encode ("--".toList ++ (s ++ ("-->".toList ++ rest)))) =
      .ok (.comment, encode rest) := by
    rw [comment, after?_encode]
    simp only [Option.bind_some, Utf8.ofString, hcut]
  rw [encode_commentSection]
  exact next_declaration hcomment

end Events

end Reader
end Markup
end PushGate
