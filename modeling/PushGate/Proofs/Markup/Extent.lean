import PushGate.Proofs.Markup.Nesting
import PushGate.Proofs.Markup.Scan

/-!
# The extent of an event

An event stands in an initial part of the bytes that are to come, its extent.  What follows the
extent has no say in the event, except that character data must be followed by a `<` or by nothing.
Where the input ends inside the extent, the event is not there: there is a fault or the end, or
what has been cut is read as character data or as an instruction.  The one exception is an end tag,
which is read without its closing bracket too if the input ends there.

**Results.**
* `next_extent_of_lenient`: every event has an extent.
* `next_unclosed`: an end tag is read without its closing bracket.
* `ofBytes_append`: what is added to a document is behind it, unless it completes the mark.
-/

namespace PushGate
namespace Markup

/-- What may follow an event: behind character data, a `<` or nothing. -/
def Event.Borders : Event → Bytes → Prop
  | .text _, b :: _ => b = opening
  | _, _ => True

/-- An event that ends with the input if no `>` comes: an end tag or an instruction. -/
def Event.lenient : Event → Bool
  | .stop _ => true
  | .instruction => true
  | _ => false

/-- What an end tag can do without at the end of the input: a `>` and white space before it. -/
def Dispensable (missing : Bytes) : Prop :=
  ∃ blanks, (∀ b ∈ blanks, isBlankByte b = true) ∧ missing = blanks ++ [closing]

theorem Dispensable.of_mem
    {b : UInt8}
    {missing : Bytes}
    (h : Dispensable missing)
    (hb : b ∈ missing) :
    isBlankByte b = true ∨ b = closing := by
  obtain ⟨blanks, hblanks, rfl⟩ := h
  rcases List.mem_append.1 hb with hb | hb
  · exact Or.inl (hblanks b hb)
  · exact Or.inr (List.mem_singleton.1 hb)

/-- What an end tag can do without begins nothing. -/
theorem Dispensable.not_mem
    {missing : Bytes}
    (h : Dispensable missing) :
    opening ∉ missing := by
  intro hopening
  rcases h.of_mem hopening with hblank | hclosing
  · exact absurd hblank (by decide)
  · exact absurd hclosing (by decide)

/-- What an end tag can do without stands behind the bytes that begin the tag. -/
theorem Dispensable.behind
    {b : UInt8}
    {bytes part missing : Bytes}
    (hmissing : Dispensable missing)
    (hblank : isBlankByte b = false)
    (hb : b ≠ closing)
    (h : b :: bytes = part ++ missing) :
    ∃ tail, part = b :: tail ∧ bytes = tail ++ missing := by
  cases part with
  | nil =>
      obtain ⟨blanks, hblanks, rfl⟩ := hmissing
      cases blanks with
      | nil => exact absurd (List.cons.inj h).1 hb
      | cons a blanks =>
          rw [(List.cons.inj h).1, hblanks a List.mem_cons_self] at hblank
          cases hblank
  | cons a part =>
      cases h
      exact ⟨part, rfl, rfl⟩

namespace Reader

/-- What a reader comes to where the bytes `missing` have been cut off the extent of an event. -/
inductive BrokenOff
    (opened : List Bytes)
    (e : Event)
    (missing : Bytes) :
    Except Error (Option (Event × Reader)) → Prop
  | fault
      (f : Error) :
      BrokenOff opened e missing (.error f)
  | finished :
      BrokenOff opened e missing (.ok none)
  | text
      (content : Bytes) :
      BrokenOff opened e missing (.ok (some (.text content, ⟨[], opened⟩)))
  | instruction :
      BrokenOff opened e missing (.ok (some (.instruction, ⟨[], opened⟩)))
  | unclosed
      (name : Bytes)
      (tag : e = .stop name)
      (dispensable : Dispensable missing) :
      BrokenOff opened e missing (.ok (some (e, ⟨[], e.nest opened⟩)))

/-- The bytes `used` are the extent of an event for a way of reading, where the elements `opened`
are open. -/
structure Extent
    (opened : List Bytes)
    (read : Bytes → Except Error (Option (Event × Reader)))
    (used : Bytes)
    (e : Event) : Prop where
  found : ∀ more, e.Borders more → read (used ++ more) = .ok (some (e, ⟨more, e.nest opened⟩))
  broken : ∀ part missing, used = part ++ missing → missing ≠ [] →
    BrokenOff opened e missing (read part)

/-- Reads what opens and closes no element. -/
def within
    (opened : List Bytes)
    (read : Bytes → Except Error (Event × Bytes))
    (bytes : Bytes) :
    Except Error (Option (Event × Reader)) :=
  (read bytes).map fun p => some (p.1, ⟨p.2, opened⟩)

section Events

variable {opened : List Bytes} {used bytes rest : Bytes} {e : Event} {r r' : Reader}

/-- A construct that a scan delimits has the extent that the scan uses. -/
theorem extent_of_scan
    {α : Type}
    {read : Bytes → Except Error (Event × Bytes)}
    (scan : Bytes → Option (α × Bytes))
    (build : α → Except Error Event)
    (fault : Error)
    (hread : ∀ bytes, read bytes =
      match scan bytes with
      | some (a, rest) => (build a).map fun e => (e, rest)
      | none => .error fault)
    (hscan : ∀ bytes a rest, scan bytes = some (a, rest) →
      ∃ used, bytes = used ++ rest ∧ FoundIn scan used a)
    (hflat : e.Flat)
    (h : read bytes = .ok (e, rest)) :
    ∃ used, bytes = used ++ rest ∧ Extent opened (within opened read) used e := by
  rw [hread] at h
  cases hfound : scan bytes with
  | none =>
      rw [hfound] at h
      cases h
  | some p =>
      obtain ⟨a, rest'⟩ := p
      rw [hfound] at h
      simp only at h
      cases hbuild : build a with
      | error f =>
          rw [hbuild] at h
          cases h
      | ok e' =>
          rw [hbuild] at h
          cases h
          obtain ⟨used, hbytes, hused⟩ := hscan _ _ _ hfound
          refine ⟨used, hbytes, ?_, ?_⟩
          · intro more _
            rw [within, hread, hused.found more, hflat.nest_eq]
            simp only [hbuild]
            rfl
          · intro part missing hpart hmissing
            rw [within, hread, hused.needed part missing hpart hmissing]
            exact .fault fault

theorem comment_extent
    (h : comment bytes = .ok (e, rest)) :
    ∃ used, bytes = used ++ rest ∧ Extent opened (within opened comment) used e := by
  refine extent_of_scan
    (fun bytes => (after? "--" bytes).bind (breakOn (Utf8.ofString "-->") []))
    (fun _ => .ok .comment)
    (.unexpectedEnd .comment) ?_ ?_ (comment_flat h) h
  · intro bytes
    rw [comment]
    split
    · rename_i hscan
      simp only [hscan]
      rfl
    · rename_i hscan
      simp only [hscan]
  · intro bytes a rest hscan
    refine after?_foundIn ?_ hscan
    intro bytes
    exact breakOn_foundIn (by decide)

theorem cdata_extent
    (h : cdata bytes = .ok (e, rest)) :
    ∃ used, bytes = used ++ rest ∧ Extent opened (within opened cdata) used e := by
  refine extent_of_scan
    (fun bytes => (after? "[CDATA[" bytes).bind (breakOn (Utf8.ofString "]]>") []))
    (fun content => .ok (.cdata content))
    (.unexpectedEnd .cdata) ?_ ?_ (cdata_flat h) h
  · intro bytes
    rw [cdata]
    split
    · rename_i hscan
      simp only [hscan]
      rfl
    · rename_i hscan
      simp only [hscan]
  · intro bytes a rest hscan
    refine after?_foundIn ?_ hscan
    intro bytes
    exact breakOn_foundIn (by decide)

theorem doctype_extent
    (h : doctype bytes = .ok (e, rest)) :
    ∃ used, bytes = used ++ rest ∧ Extent opened (within opened doctype) used e := by
  refine extent_of_scan
    (fun bytes =>
      (after? "DOCTYPE" bytes).bind (breakAtClosing nestingAfter (· == 0) 0 []))
    (fun content : Bytes =>
      if content.all isBlankByte then .error .emptyDoctype else .ok .doctype)
    (.unexpectedEnd .doctype) ?_ ?_ (doctype_flat h) h
  · intro bytes
    rw [doctype]
    split <;> rename_i hscan <;> simp only [hscan]
    split <;> rfl
  · intro bytes a rest hscan
    refine after?_foundIn ?_ hscan
    intro bytes
    exact breakAtClosing_foundIn

theorem borders_nil (e : Event) : e.Borders [] := by
  cases e <;> trivial

/-- Only the first byte behind an event counts. -/
theorem borders_append
    {more : Bytes}
    (hne : rest ≠ []) :
    e.Borders (rest ++ more) ↔ e.Borders rest := by
  obtain ⟨b, rest, rfl⟩ := List.exists_cons_of_ne_nil hne
  cases e <;> exact Iff.rfl

theorem borders_of_append
    {more : Bytes}
    (h : e.Borders (rest ++ more)) :
    e.Borders rest := by
  by_cases hnil : rest = []
  · rw [hnil]
    exact borders_nil e
  · exact (borders_append hnil).1 h

/-- Reading that begins behind a byte takes that byte out of the extent. -/
theorem Extent.uncons
    {b : UInt8}
    {read read' : Bytes → Except Error (Option (Event × Reader))}
    (hread : ∀ more, read' more = read (b :: more))
    (h : Extent opened read (b :: used) e) :
    Extent opened read' used e := by
  constructor
  · intro more hmore
    rw [hread]
    exact h.found more hmore
  · intro part missing hused hmissing
    rw [hread]
    exact h.broken (b :: part) missing (congrArg (b :: ·) hused) hmissing

/-- Reading that begins in front of a byte takes that byte into the extent. -/
theorem Extent.cons
    {b : UInt8}
    {read read' : Bytes → Except Error (Option (Event × Reader))}
    (hread : ∀ more, read (b :: more) = read' more)
    (hnil : ∀ missing, BrokenOff opened e missing (read []))
    (h : Extent opened read' used e) :
    Extent opened read (b :: used) e := by
  constructor
  · intro more hmore
    rw [List.cons_append, hread]
    exact h.found more hmore
  · intro part missing hused hmissing
    cases part with
    | nil => exact hnil missing
    | cons a part =>
        obtain ⟨rfl, rfl⟩ := List.cons.inj hused
        rw [hread]
        exact h.broken part missing rfl hmissing

/-- A construct that is told by its first byte. -/
theorem declaration_of_first
    {b : UInt8}
    {fault : Error}
    {read : Bytes → Except Error (Event × Bytes)}
    (hread : ∀ more, declaration (b :: more) = read (b :: more))
    (hnil : read [] = .error fault)
    (h : ∃ used, b :: bytes = used ++ rest ∧ Extent opened (within opened read) used e) :
    ∃ used, b :: bytes = used ++ rest ∧ Extent opened (within opened declaration) used e := by
  obtain ⟨used, hbytes, hextent⟩ := h
  cases used with
  | nil =>
      have hfound := hextent.found [] (borders_nil e)
      rw [List.nil_append, within, hnil] at hfound
      cases hfound
  | cons a used =>
      obtain ⟨rfl, rfl⟩ := List.cons.inj hbytes
      have hbehind : Extent opened (fun more => within opened read (b :: more)) used e :=
        hextent.uncons fun _ => rfl
      refine ⟨b :: used, rfl, hbehind.cons ?_ fun _ => .fault _⟩
      intro more
      rw [within, within, hread]

theorem declaration_extent
    (h : declaration bytes = .ok (e, rest)) :
    ∃ used, bytes = used ++ rest ∧ Extent opened (within opened declaration) used e := by
  cases bytes with
  | nil => cases h
  | cons b bytes =>
      rw [declaration] at h
      split at h
      · rename_i hb
        refine declaration_of_first (fun more => ?_) rfl (cdata_extent h)
        rw [declaration, if_pos hb]
      split at h
      · rename_i hb hb'
        refine declaration_of_first (fun more => ?_) rfl (comment_extent h)
        rw [declaration, if_neg hb, if_pos hb']
      split at h
      · rename_i hb hb' hb''
        refine declaration_of_first (fun more => ?_) rfl (doctype_extent h)
        rw [declaration, if_neg hb, if_neg hb', if_pos hb'']
      · cases h

/-- An instruction up to its closing bracket. -/
theorem instruction_extent
    (hclosing : closing ∈ bytes)
    (h : instruction bytes = .ok (e, rest)) :
    ∃ used, bytes = used ++ rest ∧ Extent opened (within opened instruction) used e := by
  obtain ⟨content, more, rfl, hcontent⟩ := List.eq_append_cons_of_mem hclosing
  simp only [instruction, takeWhile_closed hcontent, dropWhile_closed hcontent] at h
  split at h
  · rename_i hmarks
    cases h
    refine ⟨content ++ [closing], List.append_cons .., ?_, ?_⟩
    · intro more _
      rw [List.append_assoc, List.singleton_append]
      simp only [within, instruction, takeWhile_closed hcontent, dropWhile_closed hcontent,
        if_pos hmarks]
      rfl
    · intro part missing hpart hmissing
      obtain ⟨lost, rfl, rfl⟩ := cut_closed hpart hmissing
      have hopen : closing ∉ part := fun hb => hcontent (List.mem_append_left lost hb)
      simp only [within, instruction, takeWhile_unclosed hopen, dropWhile_unclosed hopen]
      split
      · exact .instruction
      · exact .fault _
  · cases h

/-- An end tag up to its closing bracket; white space before the bracket is dispensable with it. -/
theorem endTag_extent
    (hclosing : closing ∈ bytes)
    (h : endTag opened bytes = .ok (e, r)) :
    ∃ used, bytes = used ++ r.rest ∧
      Extent opened (fun more => (endTag opened more).map some) used e := by
  obtain ⟨content, more, rfl, hcontent⟩ := List.eq_append_cons_of_mem hclosing
  cases opened with
  | nil =>
      simp only [endTag] at h
      cases h
  | cons name outer =>
      simp only [endTag, takeWhile_closed hcontent, dropWhile_closed hcontent] at h
      split at h
      · rename_i hname
        cases h
        refine ⟨content ++ [closing], List.append_cons .., ?_, ?_⟩
        · intro more _
          rw [List.append_assoc, List.singleton_append]
          simp only [endTag, takeWhile_closed hcontent, dropWhile_closed hcontent, if_pos hname]
          rfl
        · intro part missing hpart hmissing
          obtain ⟨lost, rfl, rfl⟩ := cut_closed hpart hmissing
          have hopen : closing ∉ part := fun hb => hcontent (List.mem_append_left lost hb)
          simp only [endTag, takeWhile_unclosed hopen, dropWhile_unclosed hopen]
          split
          · rename_i hpartName
            -- both are the name and white space, so what has been lost is white space
            obtain ⟨blanks, -, hblanks⟩ := trimName_append_blanks part
            obtain ⟨blanks', hblank, hblanks'⟩ := trimName_append_blanks (part ++ lost)
            rw [hpartName] at hblanks
            rw [hname, hblanks, List.append_assoc] at hblanks'
            have hlost : ∀ b ∈ lost, isBlankByte b = true := by
              intro b hb
              apply hblank
              rw [← List.append_cancel_left hblanks']
              exact List.mem_append_right blanks hb
            exact .unclosed name rfl ⟨lost, hlost, rfl⟩
          · exact .fault _
      · cases h

theorem startTag_extent
    (h : startTag opened bytes = .ok (e, r)) :
    ∃ used, bytes = used ++ r.rest ∧
      Extent opened (fun more => (startTag opened more).map some) used e := by
  rw [startTag] at h
  split at h
  · cases h
  · rename_i content rest hbreak
    obtain ⟨used, rfl, hused⟩ := breakAtClosing_foundIn hbreak
    refine ⟨used, ?_, ?_, ?_⟩
    · split at h <;>
      · cases h
        rfl
    · intro more _
      simp only [startTag, hused.found more]
      split at h <;>
      · rename_i hslash
        cases h
        simp only [hslash, if_true, if_false]
        rfl
    · intro part missing hpart hmissing
      simp only [startTag, hused.needed part missing hpart hmissing]
      exact .fault _

/-- Without a closing bracket there is nothing behind it. -/
theorem mem_of_tail_dropWhile
    (h : (bytes.dropWhile (· != closing)).tail ≠ []) :
    closing ∈ bytes := by
  refine Decidable.byContradiction fun hclosing => h ?_
  rw [dropWhile_unclosed hclosing]
  rfl

/-- What opens and closes no element has its extent behind a `<` as well. -/
theorem lift_extent
    {c : UInt8}
    {read : Bytes → Except Error (Event × Bytes)}
    (hmarkup : ∀ more, markup opened c more = (read more).map fun p => (p.1, ⟨p.2, opened⟩))
    (hread : read bytes = .ok (e, r.rest) →
      ∃ used, bytes = used ++ r.rest ∧ Extent opened (within opened read) used e)
    (h : markup opened c bytes = .ok (e, r)) :
    ∃ used, bytes = used ++ r.rest ∧
      Extent opened (fun more => (markup opened c more).map some) used e := by
  have hwithin : ∀ more, (markup opened c more).map some = within opened read more := by
    intro more
    rw [hmarkup, within]
    cases read more <;> rfl
  rw [hmarkup] at h
  cases hfound : read bytes with
  | error f =>
      rw [hfound] at h
      cases h
  | ok p =>
      rw [hfound] at h
      cases h
      simp only [hwithin]
      exact hread hfound

/-- Everything behind a `<` has an extent.  An instruction or an end tag with nothing behind it has
one if it ends with its closing bracket. -/
theorem markup_extent
    {c : UInt8}
    (hclosed : e.lenient = true → r.rest ≠ [] ∨ closing ∈ c :: bytes)
    (h : markup opened c bytes = .ok (e, r)) :
    ∃ used, bytes = used ++ r.rest ∧
      Extent opened (fun more => (markup opened c more).map some) used e := by
  have hbehind : c ≠ closing → closing ∈ c :: bytes → closing ∈ bytes :=
    fun hc hmem => (List.mem_cons.1 hmem).resolve_left (Ne.symm hc)
  by_cases hbang : c = bang
  · refine lift_extent (fun more => ?_) declaration_extent h
    rw [markup, if_pos hbang]
  by_cases hslash : c = slash
  · have hmarkup : ∀ more, markup opened c more = endTag opened more := by
      intro more
      rw [markup, if_neg hbang, if_pos hslash]
    rw [hmarkup] at h
    simp only [hmarkup]
    refine endTag_extent ?_ h
    simp only [endTag] at h
    split at h
    · cases h
    · split at h
      · cases h
        exact (hclosed rfl).elim mem_of_tail_dropWhile (hbehind (hslash ▸ by decide))
      · cases h
  by_cases hquestion : c = question
  · have hmarkup : ∀ more,
        markup opened c more = (instruction more).map fun p => (p.1, ⟨p.2, opened⟩) := by
      intro more
      rw [markup, if_neg hbang, if_neg hslash, if_pos hquestion]
    refine lift_extent hmarkup (fun hread => ?_) h
    refine instruction_extent ?_ hread
    simp only [instruction] at hread
    split at hread
    · obtain ⟨rfl, hbytes⟩ := Prod.mk.inj (Except.ok.inj hread)
      exact (hclosed rfl).elim (fun hrest => mem_of_tail_dropWhile (hbytes ▸ hrest))
        (hbehind (hquestion ▸ by decide))
    · cases hread
  · have hmarkup : ∀ more, markup opened c more = startTag opened (c :: more) := by
      intro more
      rw [markup, if_neg hbang, if_neg hslash, if_neg hquestion]
    rw [hmarkup] at h
    simp only [hmarkup]
    obtain ⟨used, hbytes, hextent⟩ := startTag_extent h
    cases used with
    | nil =>
        have hlength := startTag_length h
        rw [hbytes, List.nil_append] at hlength
        exact absurd hlength (Nat.lt_irrefl _)
    | cons b used =>
        obtain ⟨rfl, rfl⟩ := List.cons.inj hbytes
        exact ⟨used, rfl, hextent.uncons fun _ => rfl⟩

/-- Character data up to markup or the end of the input. -/
theorem next_content
    {content more : Bytes}
    (hne : content ≠ [])
    (hcontent : ∀ b ∈ content, b ≠ opening)
    (hmore : (Event.text content).Borders more) :
    next ⟨content ++ more, opened⟩ = .ok (some (.text content, ⟨more, opened⟩)) := by
  have hall : ∀ b ∈ content, (b != opening) = true := fun b hb => bne_iff_ne.2 (hcontent b hb)
  have hstop : more.takeWhile (· != opening) = [] ∧ more.dropWhile (· != opening) = more := by
    cases more with
    | nil => exact ⟨rfl, rfl⟩
    | cons b more =>
        have hb : b = opening := hmore
        simp [hb]
  obtain ⟨b, content, rfl⟩ := List.exists_cons_of_ne_nil hne
  have hb : b ≠ opening := hcontent b List.mem_cons_self
  have htake : (b :: (content ++ more)).takeWhile (· != opening) = b :: content := by
    rw [← List.cons_append, List.takeWhile_append_of_pos hall, hstop.1, List.append_nil]
  have hdrop : (b :: (content ++ more)).dropWhile (· != opening) = more := by
    rw [← List.cons_append, List.dropWhile_append_of_pos hall, hstop.2]
  rw [List.cons_append]
  simp only [next, if_neg hb, htake, hdrop]

theorem content_extent
    {content : Bytes}
    (hne : content ≠ [])
    (hcontent : ∀ b ∈ content, b ≠ opening) :
    Extent opened (fun more => next ⟨more, opened⟩) content (.text content) := by
  constructor
  · intro more hmore
    exact next_content hne hcontent hmore
  · rintro part missing rfl -
    cases part with
    | nil => exact .finished
    | cons b part =>
        have hpart : next ⟨b :: part ++ [], opened⟩ = .ok (some (.text (b :: part), ⟨[], opened⟩)) :=
          next_content (List.cons_ne_nil b part)
            (fun a ha => hcontent a (List.mem_append_left missing ha)) trivial
        rw [List.append_nil] at hpart
        simp only [hpart]
        exact .text _

theorem declaration_borders
    (h : declaration bytes = .ok (e, rest))
    (more : Bytes) :
    e.Borders more := by
  simp only [declaration, comment, cdata, doctype] at h
  repeat' split at h
  all_goals cases h <;> trivial

/-- Anything may follow markup. -/
theorem markup_borders
    {c : UInt8}
    (h : markup opened c bytes = .ok (e, r))
    (more : Bytes) :
    e.Borders more := by
  simp only [markup, instruction, endTag, startTag] at h
  split at h
  · cases hread : declaration bytes with
    | error f =>
        rw [hread] at h
        cases h
    | ok p =>
        rw [hread] at h
        cases h
        exact declaration_borders hread more
  · repeat' split at h
    all_goals cases h <;> trivial

/-- **Extents.**  Every event stands in its extent, unless the input ends in place of its `>`. -/
theorem next_extent_of_lenient
    (hclosed : e.lenient = true → r'.rest ≠ [] ∨ closing ∈ r.rest)
    (h : r.next = .ok (some (e, r'))) :
    ∃ used, r.rest = used ++ r'.rest ∧ e.Borders r'.rest ∧
      Extent r.opened (fun more => next ⟨more, r.opened⟩) used e := by
  obtain ⟨rest, opened⟩ := r
  cases rest with
  | nil => cases h
  | cons b rest =>
      by_cases hb : b = opening
      · subst hb
        cases rest with
        | nil => cases h
        | cons c rest =>
            simp only [next, if_true] at h
            cases hmarkup : markup opened c rest with
            | error f =>
                rw [hmarkup] at h
                cases h
            | ok p =>
                obtain ⟨e', r''⟩ := p
                rw [hmarkup] at h
                cases h
                have hmem : closing ∈ opening :: c :: rest → closing ∈ c :: rest :=
                  fun hmem => (List.mem_cons.1 hmem).resolve_left (by decide)
                obtain ⟨used, rfl, hextent⟩ :=
                  markup_extent (fun hlenient => (hclosed hlenient).imp_right hmem) hmarkup
                refine ⟨opening :: c :: used, rfl, markup_borders hmarkup _, ?_⟩
                have hbehind :
                    Extent opened (fun more => next ⟨opening :: more, opened⟩) (c :: used) e :=
                  hextent.cons (fun _ => rfl) fun _ => .finished
                exact hbehind.cons (fun _ => rfl) fun _ => .finished
      · simp only [next, if_neg hb] at h
        cases h
        refine ⟨_, List.takeWhile_append_dropWhile.symm, ?_, content_extent ?_ ?_⟩
        · have hhead := List.head?_dropWhile_not (· != opening) (b :: rest)
          cases hrest : (b :: rest).dropWhile (· != opening) with
          | nil => trivial
          | cons a more =>
              simpa [hrest, Event.Borders] using hhead
        · rw [List.takeWhile_cons_of_pos (by simpa using hb)]
          exact List.cons_ne_nil _ _
        · intro a ha
          simpa using List.mem_takeWhile_imp ha

theorem next_extent
    (hclosed : r'.rest ≠ [] ∨ r.rest.getLast? = some closing)
    (h : r.next = .ok (some (e, r'))) :
    ∃ used, r.rest = used ++ r'.rest ∧ e.Borders r'.rest ∧
      Extent r.opened (fun more => next ⟨more, r.opened⟩) used e :=
  next_extent_of_lenient (fun _ => hclosed.imp_right List.mem_of_getLast?) h

/-- The reader comes to the same events if bytes are added behind. -/
theorem next_append
    (hnext : r.next = .ok (some (e, r')))
    (hrest : r'.rest ≠ [])
    (more : Bytes) :
    next ⟨r.rest ++ more, r.opened⟩ =
      .ok (some (e, ⟨r'.rest ++ more, r'.opened⟩)) := by
  obtain ⟨used, hused, hborders, hextent⟩ := next_extent (Or.inl hrest) hnext
  rw [hused, List.append_assoc, (next_nest hnext).1]
  exact hextent.found (r'.rest ++ more) ((borders_append hrest).2 hborders)

/-- An end tag is written with a slash. -/
theorem endTag_of_next
    {name : Bytes}
    (h : r.next = .ok (some (.stop name, r'))) :
    ∃ bytes, r.rest = opening :: slash :: bytes ∧
      endTag r.opened bytes = .ok (.stop name, r') := by
  obtain ⟨rest, opened⟩ := r
  cases rest with
  | nil => cases h
  | cons b rest =>
      by_cases hb : b = opening
      · subst hb
        cases rest with
        | nil => cases h
        | cons c rest =>
            simp only [next, if_true] at h
            cases hmarkup : markup opened c rest with
            | error f =>
                rw [hmarkup] at h
                cases h
            | ok p =>
                rw [hmarkup] at h
                cases h
                rw [markup] at hmarkup
                split at hmarkup
                · obtain ⟨-, hcloses⟩ := map_flat (fun _ _ => declaration_flat) hmarkup
                  cases hcloses
                split at hmarkup
                · rename_i hslash
                  exact ⟨rest, by rw [hslash], hmarkup⟩
                split at hmarkup
                · obtain ⟨-, hcloses⟩ := map_flat (fun _ _ => instruction_flat) hmarkup
                  cases hcloses
                · obtain ⟨-, hcloses⟩ := startTag_nest hmarkup
                  cases hcloses
      · simp only [next, if_neg hb] at h
        cases h

/-- After `</` comes an end tag, or a fault. -/
theorem next_of_slash
    (h : [opening, slash] <+: bytes) :
    (∃ e, next ⟨bytes, opened⟩ = .error e) ∨
      ∃ name r, next ⟨bytes, opened⟩ = .ok (some (.stop name, r)) := by
  obtain ⟨content, rfl⟩ := h
  have hnext : next ⟨[opening, slash] ++ content, opened⟩ = (endTag opened content).map some := rfl
  rw [hnext]
  cases opened with
  | nil => exact Or.inl ⟨_, rfl⟩
  | cons name outer =>
      simp only [endTag]
      split
      · exact Or.inr ⟨name, _, rfl⟩
      · exact Or.inl ⟨_, rfl⟩

/-- An end tag has the name of the innermost open element. -/
theorem opened_of_endTag
    {name : Bytes}
    (h : endTag opened bytes = .ok (.stop name, r)) :
    opened = name :: r.opened := by
  cases opened with
  | nil =>
      simp only [endTag] at h
      cases h
  | cons innermost outer =>
      simp only [endTag] at h
      split at h
      · cases h
        rfl
      · cases h

/-- At the end of the input an end tag is read without its closing bracket and the white space
before it, unless its name is itself white space. -/
theorem next_unclosed
    {part missing name : Bytes}
    (hrest : r.rest = part ++ missing)
    (hmissing : Dispensable missing)
    (hend : r'.rest = [])
    (hname : ∃ b ∈ name, isBlankByte b = false)
    (h : r.next = .ok (some (.stop name, r'))) :
    next ⟨part, r.opened⟩ = .ok (some (.stop name, r')) := by
  obtain ⟨bytes, hbytes, htag⟩ := endTag_of_next h
  rw [hbytes] at hrest
  obtain ⟨slashed, rfl, hslashed⟩ := hmissing.behind (by decide) (by decide) hrest
  obtain ⟨part, rfl, rfl⟩ := hmissing.behind (by decide) (by decide) hslashed
  obtain ⟨blanks, hblanks, rfl⟩ := hmissing
  cases hopened : r.opened with
  | nil =>
      rw [hopened] at htag
      simp only [endTag] at htag
      cases htag
  | cons innermost outer =>
      have hclosing : closing ∈ part ++ (blanks ++ [closing]) := by simp
      obtain ⟨content, more, hsplit, hcontent⟩ := List.eq_append_cons_of_mem hclosing
      rw [hopened, hsplit] at htag
      simp only [endTag, takeWhile_closed hcontent, dropWhile_closed hcontent] at htag
      split at htag
      · rename_i htrim
        cases htag
        obtain rfl : more = [] := hend
        rw [← List.append_assoc] at hsplit
        obtain ⟨rfl, -⟩ := List.append_inj' hsplit rfl
        have hpart : ∃ b ∈ part, isBlankByte b = false := by
          obtain ⟨b, hb, hblank⟩ := hname
          obtain ⟨rest, -, hrest⟩ := trimName_append_blanks (part ++ blanks)
          rw [htrim] at hrest
          have hmem : b ∈ part ++ blanks := hrest ▸ List.mem_append_left rest hb
          refine ⟨b, (List.mem_append.1 hmem).resolve_right fun hb => ?_, hblank⟩
          rw [hblanks b hb] at hblank
          cases hblank
        have hopen : closing ∉ part := fun hb => hcontent (List.mem_append_left blanks hb)
        rw [trimName_append hpart hblanks] at htrim
        have htag : endTag (name :: outer) part = .ok (.stop name, ⟨[], outer⟩) := by
          simp only [endTag, takeWhile_unclosed hopen, dropWhile_unclosed hopen, if_pos htrim]
          rfl
        show (endTag (name :: outer) part).map some = _
        rw [htag]
        rfl
      · cases htag

/-- At the end there is nothing, or a `<` with nothing behind it. -/
theorem rest_of_next_none
    (h : r.next = .ok none) :
    r.rest = [] ∨ r.rest = [opening] := by
  obtain ⟨rest, opened⟩ := r
  cases rest with
  | nil => exact Or.inl rfl
  | cons b rest =>
      by_cases hb : b = opening
      · subst hb
        cases rest with
        | nil => exact Or.inr rfl
        | cons c rest =>
            simp only [next, if_true] at h
            cases hmarkup : markup opened c rest <;> rw [hmarkup] at h <;> cases h
      · simp only [next, if_neg hb] at h
        cases h

theorem next_of_read_nil
    (h : r.read = ⟨[], .finished⟩) :
    r.next = .ok none := by
  rw [read_eq] at h
  cases hnext : r.next with
  | error f =>
      rw [hnext] at h
      cases h
  | ok found =>
      cases found with
      | none => rfl
      | some p =>
          rw [hnext] at h
          cases h

theorem next_of_read_cons
    {es : List Event}
    {ending : Ending}
    (h : r.read = ⟨e :: es, ending⟩) :
    ∃ r', r.next = .ok (some (e, r')) ∧ r'.read = ⟨es, ending⟩ := by
  rw [read_eq] at h
  cases hnext : r.next with
  | error f =>
      rw [hnext] at h
      cases h
  | ok found =>
      cases found with
      | none =>
          rw [hnext] at h
          cases h
      | some p =>
          rw [hnext] at h
          cases h
          exact ⟨p.2, rfl, rfl⟩

end Events

section Beginning

variable {bytes part missing : Bytes}

/-- The byte order mark, which the reader passes over at the beginning of a document. -/
def byteOrderMark : Bytes := [0xEF, 0xBB, 0xBF]

theorem ofBytes_of_not_mark
    (h : ¬ byteOrderMark <+: bytes) :
    ofBytes bytes = ⟨bytes, []⟩ := by
  unfold ofBytes
  split
  · rename_i rest
    exact absurd (List.prefix_append byteOrderMark rest) h
  · rfl

theorem ofBytes_closed
    (h : bytes.getLast? = some closing) :
    (ofBytes bytes).rest.getLast? = some closing := by
  by_cases hmark : byteOrderMark <+: bytes
  · obtain ⟨rest, rfl⟩ := hmark
    show rest.getLast? = _
    cases rest with
    | nil => cases h
    | cons b rest =>
        rwa [List.getLast?_append_of_ne_nil _ (List.cons_ne_nil b rest)] at h
  · rwa [ofBytes_of_not_mark hmark]

/-- Bytes that are added are behind what there is to read, unless they complete the mark. -/
theorem ofBytes_append
    (h : byteOrderMark <+: part ∨ ¬ byteOrderMark <+: part ++ missing) :
    ofBytes (part ++ missing) =
      ⟨(ofBytes part).rest ++ missing, (ofBytes part).opened⟩ := by
  by_cases hmark : byteOrderMark <+: part
  · obtain ⟨rest, rfl⟩ := hmark
    rfl
  · rw [ofBytes_of_not_mark hmark, ofBytes_of_not_mark (h.resolve_left hmark)]

/-- What is added to a document that ends with a `>` does not complete the mark. -/
theorem mark_of_closed
    (hclosed : bytes.getLast? = some closing)
    (more : Bytes) :
    byteOrderMark <+: bytes ∨ ¬ byteOrderMark <+: bytes ++ more := by
  refine Decidable.or_iff_not_imp_left.2 fun hmark hmark' => ?_
  rcases List.prefix_or_prefix_of_prefix hmark' (List.prefix_append bytes more) with h | h
  · exact hmark h
  · exact absurd (h.subset (List.mem_of_getLast? hclosed)) (by decide)

/-- Where the mark has been cut there is nothing but some of it, and an end tag cannot do without
the others. -/
theorem plain_of_cut_mark
    (hmark : byteOrderMark <+: part ++ missing)
    (hpart : ¬ byteOrderMark <+: part) :
    (∀ b ∈ part, b ≠ opening) ∧ ¬ Dispensable missing := by
  have hbegins : part <+: byteOrderMark :=
    (List.prefix_or_prefix_of_prefix hmark (List.prefix_append part missing)).resolve_left hpart
  constructor
  · rintro b hb rfl
    exact absurd (hbegins.subset hb) (by decide)
  · intro hdispensable
    obtain ⟨others, hothers⟩ := hbegins
    obtain ⟨more, hmore⟩ := hmark
    cases others with
    | nil =>
        rw [List.append_nil] at hothers
        exact hpart (hothers ▸ List.prefix_rfl)
    | cons b others =>
        have hmem : b ∈ byteOrderMark := by
          rw [← hothers]
          exact List.mem_append_right part List.mem_cons_self
        have hmissing : b ∈ missing := by
          rw [← hothers, List.append_assoc] at hmore
          rw [← List.append_cancel_left hmore]
          exact List.mem_append_left more List.mem_cons_self
        have hplain : ∀ b ∈ byteOrderMark,
            isBlankByte b = false ∧ b ≠ closing := by
          decide +kernel
        obtain ⟨hblank, hclosing⟩ := hplain b hmem
        rcases hdispensable.of_mem hmissing with h | h
        · exact absurd (h.symm.trans hblank) (by decide)
        · exact hclosing h

end Beginning

end Reader

end Markup
end PushGate
