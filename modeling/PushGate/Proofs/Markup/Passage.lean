import PushGate.Proofs.Markup.Extent

/-!
# Passages

A reader that goes on from one place comes to others, and passes events on its way.  What it passes
depends on the bytes between the two places only: other bytes may follow, and further elements may be
open around.

So bytes that are read by themselves as certain events are read as these events wherever they stand.
That is the case of an element with its tags and all that stands between them.

**Results.**
* `Passes.read_eq`: what is read from a place on is what is passed and what is read from there on.
* `Passes.replace`: other bytes may follow.
* `Passes.frame`: other elements may be open around.
* `Spells.passes`: what is read by itself is read so in any place.
-/

namespace PushGate
namespace Markup

/-- An event sequence in which every element that is opened is closed, and no other. -/
inductive WellNested : List Event → Prop
  | nil : WellNested []
  | flat
      {e : Event} {es : List Event}
      (flat : e.Flat)
      (later : WellNested es) :
      WellNested (e :: es)
  | element
      {name : Bytes} {content later : List Event}
      (inner : WellNested content)
      (outer : WellNested later) :
      WellNested (.start name :: (content ++ .stop name :: later))

/-- The events of one element, from its start tag to its end tag, or of one without content. -/
inductive IsElement (name : Bytes) : List Event → Prop
  | empty : IsElement name [.empty name]
  | tags
      {content : List Event}
      (inner : WellNested content) :
      IsElement name (.start name :: (content ++ [.stop name]))

/-- An element ends with one of its tags. -/
theorem IsElement.getLast?
    {name : Bytes}
    {es : List Event}
    (h : IsElement name es) :
    es.getLast? = some (.empty name) ∨ es.getLast? = some (.stop name) := by
  cases h with
  | empty => exact Or.inl rfl
  | tags inner =>
      right
      rw [← List.cons_append, List.getLast?_concat]

namespace Reader

/-- The reader goes from one place to another and passes the events between them. -/
inductive Passes : Reader → List Event → Reader → Prop
  | here
      (r : Reader) :
      Passes r [] r
  | event
      {r r' r'' : Reader} {e : Event} {es : List Event}
      (next : r.next = .ok (some (e, r')))
      (later : Passes r' es r'') :
      Passes r (e :: es) r''

/-- The next events, so many of them, and the place behind the last, if the reader comes so far. -/
def pass : Nat → Reader → Option (List Event × Reader)
  | 0, r => some ([], r)
  | n + 1, r =>
      match r.next with
      | .ok (some (e, r')) => (pass n r').map fun p => (e :: p.1, p.2)
      | _ => none

section Passages

variable {r r' : Reader} {es : List Event}

/-- Whether certain events are passed, computed. -/
theorem passes_iff_pass : r.Passes es r' ↔ pass es.length r = some (es, r') := by
  constructor
  · intro h
    induction h with
    | here r => rfl
    | event next _ ih => simp only [List.length_cons, pass, next, ih, Option.map_some]
  · intro h
    induction es generalizing r with
    | nil =>
        cases h
        exact .here _
    | cons e es ih =>
        rw [List.length_cons, pass] at h
        split at h
        · rename_i e' r₁ hnext
          obtain ⟨⟨es', r₂⟩, hpass, heq⟩ := Option.map_eq_some_iff.1 h
          cases heq
          exact .event hnext (ih hpass)
        · cases h

instance : Decidable (r.Passes es r') :=
  decidable_of_iff _ passes_iff_pass.symm

/-- What is read from a place on is what is passed and what is read from there on. -/
theorem Passes.read_eq
    (h : Passes r es r') :
    r.read = ⟨es ++ r'.read.events, r'.read.ending⟩ := by
  induction h with
  | here r => rfl
  | event next _ ih =>
      rw [Reader.read_eq, next]
      simp only [ih, List.cons_append]

/-- The open elements are counted by the tags that have been passed. -/
theorem Passes.length_opened
    (h : Passes r es r') :
    r'.opened.length + es.countP Event.closes = r.opened.length + es.countP Event.opens := by
  induction h with
  | here r => rfl
  | @event r r' r'' e es next _ ih =>
      obtain ⟨hopened, hcloses⟩ := next_nest next
      rw [hopened] at ih
      cases e with
      | start name =>
          simp only [Event.nest, List.length_cons] at ih
          simp only [List.countP_cons, Event.closes, Event.opens, if_true, Bool.false_eq_true,
            if_false]
          omega
      | stop name =>
          have hpos := List.length_pos_iff.2 (hcloses rfl)
          simp only [Event.nest, List.length_tail] at ih
          simp only [List.countP_cons, Event.closes, Event.opens, if_true, Bool.false_eq_true,
            if_false]
          omega
      | _ => simpa [List.countP_cons, Event.closes, Event.opens, Event.nest] using ih

/-- What is still to come behind an event was to come before it. -/
theorem next_suffix
    {e : Event}
    (h : r.next = .ok (some (e, r'))) :
    r'.rest <:+ r.rest := by
  by_cases hnil : r'.rest = []
  · rw [hnil]
    exact List.nil_suffix
  · obtain ⟨used, hused, -⟩ := next_extent (Or.inl hnil) h
    exact ⟨used, hused.symm⟩

/-- Every event takes bytes, and leaves those behind them. -/
theorem exists_used_of_next
    {e : Event}
    (h : r.next = .ok (some (e, r'))) :
    ∃ used, used ≠ [] ∧ r.rest = used ++ r'.rest := by
  obtain ⟨used, hused⟩ := next_suffix h
  refine ⟨used, ?_, hused.symm⟩
  rintro rfl
  have hlength := next_length h
  rw [← hused, List.nil_append] at hlength
  exact absurd hlength (Nat.lt_irrefl _)

theorem Passes.suffix
    (h : Passes r es r') :
    r'.rest <:+ r.rest := by
  induction h with
  | here r => exact List.suffix_refl _
  | event next _ ih => exact ih.trans (next_suffix next)

/-- Where an event follows, there are bytes to come. -/
theorem rest_ne_nil_of_next
    {e : Event}
    (h : r.next = .ok (some (e, r'))) :
    r.rest ≠ [] := by
  intro hnil
  simp [next, hnil] at h

/-- An end tag closes the innermost element, whatever is open around. -/
theorem endTag_frame
    {e : Event}
    {opened : List Bytes}
    {bytes : Bytes}
    (outer : List Bytes)
    (h : endTag opened bytes = .ok (e, r)) :
    endTag (opened ++ outer) bytes = .ok (e, ⟨r.rest, r.opened ++ outer⟩) := by
  cases opened with
  | nil =>
      simp only [endTag] at h
      cases h
  | cons name opened =>
      simp only [endTag] at h
      rw [List.cons_append]
      simp only [endTag]
      split at h
      · rename_i hname
        cases h
        rw [if_pos hname]
      · cases h

theorem startTag_frame
    {e : Event}
    {opened : List Bytes}
    {bytes : Bytes}
    (outer : List Bytes)
    (h : startTag opened bytes = .ok (e, r)) :
    startTag (opened ++ outer) bytes = .ok (e, ⟨r.rest, r.opened ++ outer⟩) := by
  rw [startTag] at h ⊢
  split at h
  · cases h
  · split at h
    · rename_i hslash
      cases h
      simp only [hslash, if_true]
    · rename_i hslash
      cases h
      simp only [hslash, if_false]
      rfl

theorem map_frame
    {e : Event}
    {opened : List Bytes}
    {found : Except Error (Event × Bytes)}
    (outer : List Bytes)
    (h : (found.map fun p => (p.1, (⟨p.2, opened⟩ : Reader))) = .ok (e, r)) :
    (found.map fun p => (p.1, (⟨p.2, opened ++ outer⟩ : Reader))) =
      .ok (e, ⟨r.rest, r.opened ++ outer⟩) := by
  cases found with
  | error f => cases h
  | ok p =>
      cases h
      rfl

theorem markup_frame
    {e : Event}
    {opened : List Bytes}
    {b : UInt8}
    {bytes : Bytes}
    (outer : List Bytes)
    (h : markup opened b bytes = .ok (e, r)) :
    markup (opened ++ outer) b bytes = .ok (e, ⟨r.rest, r.opened ++ outer⟩) := by
  rw [markup] at h ⊢
  split at h
  · rename_i hbang
    rw [if_pos hbang]
    exact map_frame outer h
  rename_i hbang
  rw [if_neg hbang]
  split at h
  · rename_i hslash
    rw [if_pos hslash]
    exact endTag_frame outer h
  rename_i hslash
  rw [if_neg hslash]
  split at h
  · rename_i hquestion
    rw [if_pos hquestion]
    exact map_frame outer h
  · rename_i hquestion
    rw [if_neg hquestion]
    exact startTag_frame outer h

/-- The next event is the same where further elements are open around. -/
theorem next_frame
    {e : Event}
    (outer : List Bytes)
    (h : r.next = .ok (some (e, r'))) :
    next ⟨r.rest, r.opened ++ outer⟩ = .ok (some (e, ⟨r'.rest, r'.opened ++ outer⟩)) := by
  obtain ⟨rest, opened⟩ := r
  cases rest with
  | nil => cases h
  | cons b rest =>
      by_cases hb : b = opening
      · subst hb
        cases rest with
        | nil => cases h
        | cons c rest =>
            simp only [next, if_true] at h ⊢
            cases hmarkup : markup opened c rest with
            | error f =>
                rw [hmarkup] at h
                cases h
            | ok p =>
                rw [hmarkup] at h
                cases h
                rw [markup_frame outer hmarkup]
                rfl
      · simp only [next, if_neg hb] at h ⊢
        cases h
        rfl

/-- The same events are passed where further elements are open around. -/
theorem Passes.frame
    (outer : List Bytes)
    (h : Passes r es r') :
    Passes ⟨r.rest, r.opened ++ outer⟩ es ⟨r'.rest, r'.opened ++ outer⟩ := by
  induction h with
  | here r => exact .here _
  | event next _ ih => exact .event (next_frame outer next) ih

/-- The next event is the same where other bytes follow, unless it lacks its `>`, or is character data
that would go on. -/
theorem next_replace
    {e : Event}
    {used more : Bytes}
    (hnext : r.next = .ok (some (e, r')))
    (hused : r.rest = used ++ r'.rest)
    (hclosed : e.lenient = true → r'.rest ≠ [] ∨ used.getLast? = some closing)
    (hborders : e.Borders more) :
    next ⟨used ++ more, r.opened⟩ = .ok (some (e, ⟨more, r'.opened⟩)) := by
  obtain ⟨front, hfront, -, hextent⟩ := next_extent_of_lenient (fun hlenient =>
    (hclosed hlenient).imp_right fun hlast =>
      hused ▸ List.mem_append_left r'.rest (List.mem_of_getLast? hlast)) hnext
  rw [hfront] at hused
  obtain rfl := List.append_cancel_right hused
  rw [(next_nest hnext).1]
  exact hextent.found more hborders

/-- **Passages.**  The same events are passed where other bytes follow the last of them, unless that
one lacks its `>`, or is character data that would go on. -/
theorem Passes.replace
    {used more : Bytes}
    (h : Passes r es r')
    (hused : r.rest = used ++ r'.rest)
    (hclosed : ∀ e, es.getLast? = some e → e.lenient = true →
      r'.rest ≠ [] ∨ used.getLast? = some closing)
    (hborders : ∀ e, es.getLast? = some e → e.Borders more) :
    Passes ⟨used ++ more, r.opened⟩ es ⟨more, r'.opened⟩ := by
  induction h generalizing used with
  | here r =>
      obtain rfl : used = [] := List.append_left_eq_self.1 hused.symm
      exact .here _
  | @event r r' r'' e es next later ih =>
      obtain ⟨front, hfront⟩ := next_suffix next
      cases later with
      | here =>
          rw [← hfront] at hused
          obtain rfl := List.append_cancel_right hused
          exact .event (next_replace next hfront.symm (hclosed e rfl) (hborders e rfl)) (.here _)
      | @event _ r₁ _ e' es' next' later' =>
          obtain ⟨behind, hbehind⟩ := (Passes.event next' later').suffix
          rw [← hfront, ← hbehind, ← List.append_assoc] at hused
          obtain rfl := List.append_cancel_right hused
          -- the second event takes bytes of its own, and these border on the first
          have hshorter := Nat.lt_of_le_of_lt later'.suffix.length_le (next_length next')
          have hne : behind ≠ [] := by
            rintro rfl
            rw [← hbehind, List.nil_append] at hshorter
            exact absurd hshorter (Nat.lt_irrefl _)
          have hrest := rest_ne_nil_of_next next'
          obtain ⟨-, -, hborder, -⟩ := next_extent (Or.inl hrest) next
          rw [← hbehind, borders_append hne] at hborder
          rw [List.append_assoc]
          refine .event (next_replace next hfront.symm (fun _ => Or.inl hrest)
            ((borders_append hne).2 hborder)) ?_
          refine ih hbehind.symm ?_ hborders
          intro e hlast hlenient
          rw [← List.getLast?_append_of_ne_nil front hne]
          exact hclosed e hlast hlenient

end Passages

/-- At the beginning the reader has no more before it than the document. -/
theorem length_rest_ofBytes (bytes : Bytes) : (ofBytes bytes).rest.length ≤ bytes.length := by
  unfold ofBytes
  split
  · simp only [List.length_cons]
    omega
  · exact Nat.le_refl _

/-- The byte order mark does not reach over a `<`, which is no part of it. -/
theorem mark_of_opening
    {before more : Bytes}
    (h : byteOrderMark <+: before ++ opening :: more) :
    byteOrderMark <+: before := by
  rw [List.append_cons] at h
  by_cases hreach : byteOrderMark <+: before ++ [opening]
  · refine (List.prefix_concat_iff.1 hreach).resolve_left fun heq => ?_
    have hmem : opening ∈ byteOrderMark := by simp [heq]
    exact absurd hmem (by decide)
  · exact absurd rfl ((plain_of_cut_mark h hreach).1 opening (by simp))

/-- A place in a document stays one if other markup follows. -/
theorem passes_ofBytes_replace
    {before after more : Bytes}
    {es : List Event}
    {opened : List Bytes}
    (h : Passes (.ofBytes (before ++ after)) es ⟨after, opened⟩)
    (hclosed : ∀ e, es.getLast? = some e → e.lenient = true →
      after ≠ [] ∨ before.getLast? = some closing)
    (hmore : more.head? = some opening) :
    Passes (.ofBytes (before ++ more)) es ⟨more, opened⟩ := by
  obtain ⟨more, rfl⟩ : ∃ rest, more = opening :: rest := by
    cases more with
    | nil => cases hmore
    | cons b rest => exact ⟨rest, by rw [Option.some.inj hmore]⟩
  have hborders : ∀ e : Event, e.Borders (opening :: more) := by
    intro e
    cases e <;> trivial
  by_cases hmark : byteOrderMark <+: before ++ after
  · obtain ⟨rest, hrest⟩ := hmark
    rw [← hrest] at h
    obtain ⟨used, hused⟩ : after <:+ rest := h.suffix
    rw [← hused, ← List.append_assoc] at hrest
    obtain rfl := List.append_cancel_right hrest
    refine h.replace hused.symm ?_ fun e _ => hborders e
    intro e hlast hlenient
    exact (hclosed e hlast hlenient).imp_right ofBytes_closed
  · have hmark' : ¬ byteOrderMark <+: before ++ opening :: more :=
      fun hmark' => hmark ((mark_of_opening hmark').trans (List.prefix_append before after))
    rw [ofBytes_of_not_mark hmark] at h
    rw [ofBytes_of_not_mark hmark']
    exact h.replace rfl hclosed fun e _ => hborders e

/-! ## Markup by itself -/

/-- Bytes that are read by themselves as the events given, up to a `>` and with no element left open. -/
structure Spells (bytes : Bytes) (es : List Event) : Prop where
  closed : bytes.getLast? = some closing
  passed : Passes ⟨bytes, []⟩ es ⟨[], []⟩

section Spelling

variable {bytes more : Bytes} {es : List Event}

/-- What is read by itself is read so in any place. -/
theorem Spells.passes
    (h : Spells bytes es)
    (hborders : ∀ e, es.getLast? = some e → e.Borders more)
    (opened : List Bytes) :
    Passes ⟨bytes ++ more, opened⟩ es ⟨more, opened⟩ := by
  have hmore :=
    h.passed.replace (List.append_nil bytes).symm (fun _ _ _ => Or.inr h.closed) hborders
  exact hmore.frame opened

/-- What is no character data begins with a `<`. -/
theorem head?_of_next
    {r r' : Reader}
    {e : Event}
    (he : ∀ content, e ≠ .text content)
    (h : r.next = .ok (some (e, r'))) :
    r.rest.head? = some opening := by
  obtain ⟨rest, opened⟩ := r
  cases rest with
  | nil => cases h
  | cons b rest =>
      by_cases hb : b = opening
      · rw [hb]
        rfl
      · simp only [next, if_neg hb] at h
        cases h
        exact absurd rfl (he _)

/-- An element begins with a `<`. -/
theorem Spells.head?
    {name : Bytes}
    (h : Spells bytes es)
    (helement : IsElement name es) :
    bytes.head? = some opening := by
  cases helement with
  | empty =>
      cases h.passed with
      | event next _ => exact head?_of_next (fun content => by simp) next
  | tags inner =>
      cases h.passed with
      | event next _ => exact head?_of_next (fun content => by simp) next

end Spelling

end Reader
end Markup
end PushGate
