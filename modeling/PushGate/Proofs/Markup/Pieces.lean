import PushGate.Proofs.Markup.Extent

/-!
# Pieces of markup

The tags of an element in which nothing stands but its name, a comment, and an instruction: the bytes
that they are written in, and the event that the reader finds in these.

A name is here any sequence of bytes that has none of those by which the reader tells one piece from
another.  The names that markup allows are of that kind, and so are many others.

**Results.**
* `next_startTagOf`, `next_emptyTagOf`, `next_endTagOf`: the three tags.
* `next_commentOf`, `next_instructionOf`: a comment and an instruction.
* `next_instructionOf_of_mem`: an instruction that has a `>` in it is a fault.
-/

namespace PushGate
namespace Markup

/-- A byte that may stand in a name: neither white space nor a mark of the reader's. -/
def isTagByte (b : UInt8) : Bool :=
  !(isBlankByte b || b == closing || b == slash || b == question || b == bang || b == 0x22 ||
    b == 0x27)

/-- The name of an element, as it stands in its tags. -/
structure IsTagName (name : Bytes) : Prop where
  nonempty : name ≠ []
  plain : ∀ b ∈ name, isTagByte b = true

def startTagOf (name : Bytes) : Bytes :=
  opening :: (name ++ [closing])

def endTagOf (name : Bytes) : Bytes :=
  opening :: slash :: (name ++ [closing])

/-- The tag of an element without content. -/
def emptyTagOf (name : Bytes) : Bytes :=
  opening :: (name ++ [slash, closing])

abbrev dash : UInt8 := 0x2D

/-- The mark `-->` at the end of a comment. -/
def commentEnd : Bytes := [dash, dash, closing]

def commentOf (content : Bytes) : Bytes :=
  opening :: bang :: dash :: dash :: (content ++ commentEnd)

/-- The mark `?>` at the end of an instruction. -/
def instructionEnd : Bytes := [question, closing]

def instructionOf (content : Bytes) : Bytes :=
  opening :: question :: (content ++ instructionEnd)

section Names

variable {name : Bytes} {a b : UInt8}

theorem IsTagName.ne_of_mem
    (h : IsTagName name)
    (ha : isTagByte a = false)
    (hb : b ∈ name) :
    b ≠ a := by
  rintro rfl
  rw [h.plain b hb] at ha
  cases ha

theorem IsTagName.not_mem
    (h : IsTagName name)
    (ha : isTagByte a = false) :
    a ∉ name :=
  fun hmem => h.ne_of_mem ha hmem rfl

theorem IsTagName.not_isBlankByte
    (h : IsTagName name)
    (hb : b ∈ name) :
    isBlankByte b = false := by
  rw [← Bool.not_eq_true]
  intro hblank
  have hplain := h.plain b hb
  simp [isTagByte, hblank] at hplain

theorem IsTagName.tagName_eq (h : IsTagName name) : tagName name = name := by
  rw [tagName, List.takeWhile_eq_self_iff]
  intro b hb
  rw [h.not_isBlankByte hb]
  rfl

theorem IsTagName.trimName_eq (h : IsTagName name) : trimName name = name := by
  obtain ⟨blanks, hblanks, hsplit⟩ := trimName_append_blanks name
  obtain rfl : blanks = [] := by
    refine List.eq_nil_iff_forall_not_mem.2 fun b hb => ?_
    have hmem : b ∈ name := hsplit ▸ List.mem_append_right _ hb
    exact absurd ((h.not_isBlankByte hmem).symm.trans (hblanks b hb)) (by decide)
  rw [List.append_nil] at hsplit
  exact hsplit.symm

end Names

/-- Where no quote is opened, a tag ends at its first closing bracket. -/
theorem breakAtClosing_append
    {done bytes more : Bytes}
    (h : ∀ b ∈ bytes, b ≠ closing ∧ b ≠ 0x22 ∧ b ≠ 0x27) :
    breakAtClosing quoteAfter Option.isNone none done (bytes ++ closing :: more) =
      some (done.reverse ++ bytes, more) := by
  induction bytes generalizing done with
  | nil => simp [breakAtClosing]
  | cons b bytes ih =>
      obtain ⟨hclosing, hdouble, hsingle⟩ := h b List.mem_cons_self
      rw [List.cons_append, breakAtClosing, if_neg (by simp [hclosing])]
      have hquote : quoteAfter none b = none := by simp [quoteAfter, hdouble, hsingle]
      rw [hquote, ih fun b hb => h b (List.mem_cons_of_mem _ hb)]
      simp

/-- A section ends at its mark, which is one byte twice and a closing bracket, unless the mark stands
in the section. -/
theorem breakOn_marked
    {a : UInt8}
    {done bytes more : Bytes}
    (ha : a ≠ closing)
    (h : ¬ [a, a, closing] <:+: bytes) :
    breakOn [a, a, closing] done (bytes ++ ([a, a, closing] ++ more)) =
      some (done.reverse ++ bytes, more) := by
  induction bytes generalizing done with
  | nil =>
      rw [List.nil_append, breakOn_of_prefix, List.append_nil]
  | cons b bytes ih =>
      have hhere : ¬ [a, a, closing] <+: b :: (bytes ++ ([a, a, closing] ++ more)) := by
        intro hmark
        -- the mark cannot begin in the section and end in the mark behind it
        match bytes, h, hmark with
        | [], _, hmark => simp [ha.symm] at hmark
        | [_], _, hmark => simp [ha.symm] at hmark
        | c :: d :: bytes, h, hmark =>
            have hinside : [a, a, closing] <+: b :: c :: d :: bytes := by simpa using hmark
            exact h hinside.isInfix
      rw [List.cons_append, breakOn_cons hhere]
      rw [ih fun hbehind => h (hbehind.trans (List.suffix_cons b bytes).isInfix)]
      simp

/-! ## Events -/

namespace Reader

section Events

variable {name content bytes more : Bytes} {opened : List Bytes} {e : Event} {r : Reader}

/-- A tag that begins with a name. -/
theorem next_of_startTag
    (hname : IsTagName name)
    (h : startTag opened (name ++ bytes) = .ok (e, r)) :
    next ⟨opening :: (name ++ bytes), opened⟩ = .ok (some (e, r)) := by
  obtain ⟨b, rest, rfl⟩ := List.exists_cons_of_ne_nil hname.nonempty
  have hmem : b ∈ b :: rest := List.mem_cons_self
  have hbang : b ≠ bang := hname.ne_of_mem rfl hmem
  have hslash : b ≠ slash := hname.ne_of_mem rfl hmem
  have hquestion : b ≠ question := hname.ne_of_mem rfl hmem
  have hmarkup : markup opened b (rest ++ bytes) = .ok (e, r) := by
    rw [markup, if_neg hbang, if_neg hslash, if_neg hquestion]
    exact h
  simp only [next, List.cons_append, if_true, hmarkup]
  rfl

theorem next_startTagOf (hname : IsTagName name) :
    next ⟨startTagOf name ++ more, opened⟩ = .ok (some (.start name, ⟨more, name :: opened⟩)) := by
  have hcut :
      breakAtClosing quoteAfter Option.isNone none [] (name ++ closing :: more) =
        some (name, more) := by
    refine breakAtClosing_append fun b hb => ?_
    exact ⟨hname.ne_of_mem rfl hb, hname.ne_of_mem rfl hb, hname.ne_of_mem rfl hb⟩
  have hlast : ¬ name.getLast? = some slash :=
    fun hslash => hname.not_mem rfl (List.mem_of_getLast? hslash)
  have htag : startTag opened (name ++ closing :: more) =
      .ok (.start name, ⟨more, name :: opened⟩) := by
    rw [startTag, hcut]
    simp only [if_neg hlast, hname.tagName_eq]
  rw [startTagOf, List.cons_append, List.append_assoc]
  exact next_of_startTag hname htag

theorem next_emptyTagOf (hname : IsTagName name) :
    next ⟨emptyTagOf name ++ more, opened⟩ = .ok (some (.empty name, ⟨more, opened⟩)) := by
  have hcut :
      breakAtClosing quoteAfter Option.isNone none [] (name ++ [slash] ++ closing :: more) =
        some (name ++ [slash], more) := by
    refine breakAtClosing_append fun b hb => ?_
    rcases List.mem_append.1 hb with hb | hb
    · exact ⟨hname.ne_of_mem rfl hb, hname.ne_of_mem rfl hb, hname.ne_of_mem rfl hb⟩
    · rw [List.mem_singleton.1 hb]
      decide
  have htag : startTag opened (name ++ [slash] ++ closing :: more) =
      .ok (.empty name, ⟨more, opened⟩) := by
    rw [startTag, hcut]
    simp only [List.getLast?_concat, if_true, List.dropLast_concat, hname.tagName_eq]
  rw [emptyTagOf, List.cons_append, List.append_assoc]
  refine next_of_startTag hname ?_
  rwa [List.append_assoc] at htag

/-- The end tag of the innermost open element. -/
theorem next_endTagOf (hname : IsTagName name) :
    next ⟨endTagOf name ++ more, name :: opened⟩ = .ok (some (.stop name, ⟨more, opened⟩)) := by
  have hclosing : closing ∉ name := hname.not_mem rfl
  have htag : endTag (name :: opened) (name ++ closing :: more) =
      .ok (.stop name, ⟨more, opened⟩) := by
    simp only [endTag, takeWhile_closed hclosing, dropWhile_closed hclosing, hname.trimName_eq,
      if_true, List.tail_cons]
  have hinput : endTagOf name ++ more = opening :: slash :: (name ++ closing :: more) := by
    simp [endTagOf]
  have hmarkup : markup (name :: opened) slash (name ++ closing :: more) =
      endTag (name :: opened) (name ++ closing :: more) := rfl
  simp only [next, hinput, if_true, hmarkup, htag]
  rfl

theorem next_declaration
    (h : declaration bytes = .ok (e, more)) :
    next ⟨opening :: bang :: bytes, opened⟩ = .ok (some (e, ⟨more, opened⟩)) := by
  simp only [next, markup, if_true, h]
  rfl

theorem next_commentOf (hcontent : ¬ commentEnd <:+: content) :
    next ⟨commentOf content ++ more, opened⟩ = .ok (some (.comment, ⟨more, opened⟩)) := by
  have hcut :
      breakOn (Utf8.ofString "-->") [] (content ++ (commentEnd ++ more)) = some (content, more) :=
    breakOn_marked (by decide) hcontent
  have hafter : after? "--" (dash :: dash :: (content ++ (commentEnd ++ more))) =
      some (content ++ (commentEnd ++ more)) := rfl
  have hdeclaration :
      declaration (dash :: dash :: (content ++ (commentEnd ++ more))) = .ok (.comment, more) := by
    show comment (dash :: dash :: (content ++ (commentEnd ++ more))) = _
    rw [comment, hafter]
    simp only [Option.bind_some, hcut]
  have hinput : commentOf content ++ more =
      opening :: bang :: dash :: dash :: (content ++ (commentEnd ++ more)) := by
    simp only [commentOf, List.cons_append, List.append_assoc]
  rw [hinput]
  exact next_declaration hdeclaration

/-- An instruction with something in it, as long as no `>` stands there. -/
theorem next_instructionOf
    (hne : content ≠ [])
    (hcontent : closing ∉ content) :
    next ⟨instructionOf content ++ more, opened⟩ = .ok (some (.instruction, ⟨more, opened⟩)) := by
  have hclosing : closing ∉ content ++ [question] := by
    simp [hcontent, closing, question]
  have hlength : 2 ≤ (content ++ [question]).length := by
    have := List.length_pos_iff.2 hne
    simp only [List.length_append, List.length_singleton]
    omega
  have hinstruction : instruction (content ++ [question] ++ closing :: more) =
      .ok (.instruction, more) := by
    simp only [instruction, takeWhile_closed hclosing, dropWhile_closed hclosing]
    rw [if_pos ⟨hlength, List.getLast?_concat⟩]
    rfl
  have hinput : instructionOf content ++ more =
      opening :: question :: (content ++ [question] ++ closing :: more) := by
    simp [instructionOf, instructionEnd]
  have hmarkup : markup opened question (content ++ [question] ++ closing :: more) =
      .ok (.instruction, ⟨more, opened⟩) := by
    show (instruction _).map _ = _
    rw [hinstruction]
    rfl
  simp only [next, hinput, if_true, hmarkup]
  rfl

/-- The reader ends an instruction at its first `>`, so one that has another `>` in it is a fault. -/
theorem next_instructionOf_of_mem
    (hclosing : closing ∈ content)
    (hcontent : ¬ instructionEnd <:+: content) :
    next ⟨instructionOf content ++ more, opened⟩ = .error (.unexpectedEnd .instruction) := by
  obtain ⟨front, rest, rfl, hfront⟩ := List.eq_append_cons_of_mem hclosing
  have hlast : ¬ front.getLast? = some question := by
    intro hquestion
    obtain ⟨start, rfl⟩ := List.getLast?_eq_some_iff.1 hquestion
    exact hcontent ⟨start, rest, by simp [instructionEnd]⟩
  have hinstruction : instruction (front ++ closing :: (rest ++ instructionEnd ++ more)) =
      .error (.unexpectedEnd .instruction) := by
    simp only [instruction, takeWhile_closed hfront]
    exact if_neg fun h => hlast h.2
  have hinput : instructionOf (front ++ closing :: rest) ++ more =
      opening :: question :: (front ++ closing :: (rest ++ instructionEnd ++ more)) := by
    simp [instructionOf]
  have hmarkup :
      markup opened question (front ++ closing :: (rest ++ instructionEnd ++ more)) =
        .error (.unexpectedEnd .instruction) := by
    show (instruction _).map _ = _
    rw [hinstruction]
    rfl
  simp only [next, hinput, if_true, hmarkup]
  rfl

end Events

end Reader
end Markup
end PushGate
