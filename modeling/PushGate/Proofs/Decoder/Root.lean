import PushGate.Proofs.Decoder.Settling
import PushGate.Proofs.Markup.Extent

/-!
# The end of the root

A root element is complete with its end tag, or with its only tag if it has no content.  A push that
is accepted and ends there is asked two questions here: what bytes behind it change, and what
remains of it when bytes are cut off its end.

The end tag of the root stops the decoder, so bytes behind it change nothing.  A root without
content does not stop it, and what follows is decoded with it.  Until the root is complete the end
of the input is refused; but the reader takes an end tag without its closing bracket, and therefore
a push that lacks no more than this is accepted like the whole.

**Results.**
* `completing_of_position`: the way of the decoder to the end of the root.
* `readOn_append_endTag`, `readOn_append_selfClosing`: what bytes behind the root change.
* `readOn_cut`: what remains of a push that has been cut.
* `decode_append`, `decode_truncated`: the same of whole pushes.
-/

namespace PushGate

open Markup (Event Ending Reading Reader)

namespace Decoder

/-- The event at a position completes a root element: it is the end tag of one, or the tag of one
without content. -/
inductive CompletesRoot (es : List Event) (i : Nat) : Prop
  | endTag
      {name : Bytes}
      (tag : es[i]? = some (.stop name))
      (inRoot : depthAt es i = 1)
  | selfClosing
      {name : Bytes}
      (tag : es[i]? = some (.empty name))
      (outside : depthAt es i = 0)

/-- Whether the event at a position completes a root element, computed. -/
def completesRoot (es : List Event) (i : Nat) : Bool :=
  match es[i]? with
  | some (.stop _) => depthAt es i == 1
  | some (.empty _) => depthAt es i == 0
  | _ => false

theorem completesRoot_iff
    {es : List Event}
    {i : Nat} :
    completesRoot es i = true ↔ CompletesRoot es i := by
  constructor
  · intro h
    rw [completesRoot] at h
    split at h
    · rename_i tag
      exact .endTag tag (beq_iff_eq.1 h)
    · rename_i tag
      exact .selfClosing tag (beq_iff_eq.1 h)
    · cases h
  · rintro (⟨tag, inRoot⟩ | ⟨tag, outside⟩)
    · simp [completesRoot, tag, inRoot]
    · simp [completesRoot, tag, outside]

instance (es : List Event) (i : Nat) : Decidable (CompletesRoot es i) :=
  decidable_of_iff _ completesRoot_iff

/-- A document ends with the `>` that completes its first root element. -/
structure EndsWithRoot (bytes : Bytes) : Prop where
  closed : bytes.getLast? = some Markup.closing
  finished : (Reading.ofBytes bytes).ending = .finished
  complete : ∃ i, (Reading.ofBytes bytes).events.length = i + 1 ∧
    CompletesRoot (Reading.ofBytes bytes).events i ∧
    ∀ j < i, ¬ CompletesRoot (Reading.ofBytes bytes).events j

/-- The last event of a document is an end tag. -/
def EndsWithEndTag (bytes : Bytes) : Prop :=
  ∃ name, (Reading.ofBytes bytes).events.getLast? = some (.stop name)

/-- The decoder is on its way to the end of the root, which comes with the last event, `tag`.  Until
then the end of the input is refused. -/
inductive Completing : Event → State → Reader → Prop
  | passes
      {tag e : Event} {s t : State} {r r' : Reader}
      (unfinished : (s.finish .finished).fault ≠ none)
      (next : r.next = .ok (some (e, r')))
      (step : s.step e = .reading t)
      (later : Completing tag t r') :
      Completing tag s r
  | endTag
      {name : Bytes} {s : State} {r r' : Reader}
      (unfinished : (s.finish .finished).fault ≠ none)
      (next : r.next = .ok (some (.stop name, r')))
      (behind : r'.rest = [])
      (closed : r.rest.getLast? = some Markup.closing)
      (named : ∃ b ∈ name, Markup.isBlankByte b = false)
      (step : s.step (.stop name) = .finished ⟨s.message, none⟩) :
      Completing (.stop name) s r
  | selfClosing
      {name : Bytes} {s : State} {r : Reader}
      (unfinished : (s.finish .finished).fault ≠ none)
      (next : r.next = .ok (some (.empty name, ⟨[], []⟩)))
      (closed : r.rest.getLast? = some Markup.closing)
      (step : s.step (.empty name) = .reading { message := s.message, rootSeen := true }) :
      Completing (.empty name) s r

/-- How the outcome of a push that has been cut compares with that of the whole, which ends with
`tag`. -/
structure AfterCut (tag : Event) (missing : Bytes) (cut whole : Outcome) : Prop where
  accepted : cut.fault = none → (∃ name, tag = .stop name) ∧ Markup.Dispensable missing
  same : (∃ name, tag = .stop name) → Markup.Dispensable missing → cut = whole

/-! ## The way to the end of the root -/

section Positions

variable {es : List Event} {last i : Nat} {s : State} {r : Reader}

/-- Until a root is complete, there is none or it is open. -/
theorem depthAt_pos_of_element
    (hbalanced : Balanced es)
    (hfirst : ∀ j < i, ¬ CompletesRoot es j)
    (helement : ∃ e ∈ es.take i, e.isElement = true) :
    0 < depthAt es i := by
  induction i with
  | zero =>
      obtain ⟨e, he, -⟩ := helement
      rw [List.take_zero] at he
      cases he
  | succ i ih =>
      have hbefore := ih fun j hj => hfirst j (Nat.lt_succ_of_lt hj)
      have hhere := hfirst i (Nat.lt_succ_self i)
      cases hi : es[i]? with
      | none =>
          rw [List.take_add_one, hi, Option.toList_none, List.append_nil] at helement
          have hlength := List.getElem?_eq_none_iff.1 hi
          have hsame : depthAt es (i + 1) = depthAt es i := by
            rw [depthAt, depthAt, List.take_of_length_le hlength,
              List.take_of_length_le (Nat.le_succ_of_le hlength)]
          rw [hsame]
          exact hbefore helement
      | some e =>
          rw [exists_isElement_take_succ hi] at helement
          cases e with
          | start name =>
              rw [depthAt_succ_of_opens hbalanced hi rfl]
              exact Nat.succ_pos _
          | stop name =>
              have hpos := hbefore (helement.resolve_right (by simp [Event.isElement]))
              have hone : depthAt es i ≠ 1 := fun hone => hhere (.endTag hi hone)
              rw [depthAt_succ_of_closes hi rfl]
              omega
          | empty name =>
              have hzero : depthAt es i ≠ 0 := fun hzero => hhere (.selfClosing hi hzero)
              rw [depthAt_succ_of_flat hi ⟨rfl, rfl⟩]
              omega
          | _ =>
              rw [depthAt_succ_of_flat hi ⟨rfl, rfl⟩]
              exact hbefore (helement.resolve_right (by simp [Event.isElement]))

/-- Until a root is complete, the end of the input is refused. -/
theorem Tracks.unfinished
    (h : Tracks es i s)
    (hbalanced : Balanced es)
    (hfirst : ∀ j < i, ¬ CompletesRoot es j) :
    (s.finish .finished).fault ≠ none := by
  rw [State.finish]
  by_cases hdepth : 0 < s.depth
  · simp [hdepth]
  · have hroot : ¬ s.rootSeen = true := by
      intro hroot
      have := depthAt_pos_of_element hbalanced hfirst (h.rootSeen.1 hroot)
      rw [h.depth] at hdepth
      exact hdepth this
    simp [hdepth, hroot]

/-- A name with the local name of the root is not only white space. -/
theorem exists_not_blank_of_localName
    {name : Bytes}
    (h : Markup.localName name = rootName) :
    ∃ b ∈ name, Markup.isBlankByte b = false := by
  have hx : (0x78 : UInt8) ∈ Markup.localName name := by
    rw [h]
    decide
  refine ⟨0x78, ?_, by decide⟩
  rw [Markup.localName] at hx
  split at hx
  · rename_i hsplit
    refine (List.dropWhile_sublist _).subset (hsplit ▸ List.mem_cons_of_mem _ hx)
  · exact hx

/-- What the reader and the decoder know of the open elements, on the way to the end of the root. -/
structure Nested (es : List Event) (i : Nat) (r : Reader) : Prop where
  length_eq : r.opened.length = depthAt es i
  named : ∀ name, r.opened.getLast? = some name → Markup.localName name = rootName

theorem Nested.succ
    {e : Event}
    {t : State}
    {r' : Reader}
    (h : Nested es i r)
    (hbalanced : Balanced es)
    (hdepth : s.depth = depthAt es i)
    (hi : es[i]? = some e)
    (hnext : r.next = .ok (some (e, r')))
    (hstep : s.step e = .reading t) :
    Nested es (i + 1) r' := by
  obtain ⟨hopened, hcloses⟩ := Reader.next_nest hnext
  have hlength := h.length_eq
  cases e with
  | start name =>
      have hnext := depthAt_succ_of_opens hbalanced hi rfl
      refine ⟨?_, ?_⟩
      · rw [hopened, hnext, ← hlength]
        rfl
      · intro outer houter
        rw [hopened] at houter
        cases hr : r.opened with
        | nil =>
            rw [hr] at houter hlength
            obtain rfl : name = outer := by simpa [Event.nest] using houter
            have hzero : s.depth = 0 := hdepth.trans hlength.symm
            simp only [State.step, State.openElement, if_pos hzero, State.enterRoot] at hstep
            split at hstep
            · assumption
            · cases hstep
        | cons inner opened =>
            rw [hr] at houter
            refine h.named outer ?_
            rw [hr]
            simpa [Event.nest] using houter
  | stop name =>
      have hne := hcloses rfl
      have hnext := depthAt_succ_of_closes hi rfl
      refine ⟨?_, ?_⟩
      · rw [hopened, hnext, ← hlength]
        exact List.length_tail
      · intro outer houter
        obtain ⟨inner, opened, hr⟩ := List.exists_cons_of_ne_nil hne
        rw [hopened, hr] at houter
        refine h.named outer ?_
        rw [hr, List.getLast?_cons]
        simpa [Event.nest] using congrArg (Option.getD · inner) houter
  | _ =>
      have hnext := depthAt_succ_of_flat hi ⟨rfl, rfl⟩
      refine ⟨?_, ?_⟩
      · rw [hopened, hnext, ← hlength]
        rfl
      · rw [hopened]
        exact h.named

/-- An event before the end of the root does not stop the decoder, if the push is accepted. -/
theorem reading_of_accepted
    {e : Event}
    {r' : Reader}
    (hbalanced : Balanced es)
    (htracks : Tracks es i s)
    (hi : es[i]? = some e)
    (hincomplete : ¬ CompletesRoot es i)
    (hnext : r.next = .ok (some (e, r')))
    (haccepted : (s.readOn r).fault = none) :
    ∃ t, s.step e = .reading t ∧ Tracks es (i + 1) t := by
  have haccords : (s.step e).Accords ⟨es, .finished⟩ i := step_tracks htracks hbalanced hi
  cases hstep : s.step e with
  | reading t =>
      rw [hstep] at haccords
      exact ⟨t, rfl, haccords.1⟩
  | finished o =>
      rw [State.readOn_of_finished hnext hstep] at haccepted
      rw [hstep] at haccords
      have hsettles : Settles ⟨es, .finished⟩ i none := (haccords none).2 haccepted.symm
      cases hsettles with
      | rootClosed tag inRoot => exact absurd (.endTag tag inRoot) hincomplete
      | ended => simp at hi

/-- The event that completes the root of an accepted push. -/
theorem completing_last
    {e : Event}
    {r' : Reader}
    (hcompletes : CompletesRoot es i)
    (htracks : Tracks es i s)
    (hnested : Nested es i r)
    (hunfinished : (s.finish .finished).fault ≠ none)
    (hi : es[i]? = some e)
    (hnext : r.next = .ok (some (e, r')))
    (hbehind : r'.rest = [])
    (hclosed : r.rest.getLast? = some Markup.closing)
    (haccepted : (s.readOn r).fault = none) :
    Completing e s r := by
  have hdepth := htracks.depth
  cases hcompletes with
  | endTag tag inRoot =>
      rename_i name
      obtain rfl : e = .stop name := Option.some.inj (hi.symm.trans tag)
      obtain ⟨bytes, -, htag⟩ := Reader.endTag_of_next hnext
      have hopened := Reader.opened_of_endTag htag
      have hlength := hnested.length_eq
      rw [hopened, inRoot, List.length_cons, Nat.succ_inj, List.length_eq_zero_iff] at hlength
      have hnamed := hnested.named name (by rw [hopened, hlength]; rfl)
      have hroot := htracks.rootOpen (by omega)
      refine .endTag hunfinished hnext hbehind hclosed (exists_not_blank_of_localName hnamed) ?_
      simp only [State.step, State.closeElement]
      rw [if_neg (by omega)]
      exact if_pos ⟨by omega, hroot⟩
  | selfClosing tag outside =>
      rename_i name
      obtain rfl : e = .empty name := Option.some.inj (hi.symm.trans tag)
      have hzero : s.depth = 0 := hdepth.trans outside
      obtain ⟨hfield, hscratch⟩ := htracks.outside (by omega)
      have hstep : s.step (.empty name) = .reading { message := s.message, rootSeen := true } := by
        have hroot : s.step (.empty name) = s.enterRoot s (Markup.localName name) := by
          simp only [State.step, State.emptyElement, if_pos hzero]
        rw [State.enterRoot] at hroot
        split at hroot
        · rw [hroot, hzero, hfield, hscratch]
        · rw [State.readOn_of_finished hnext hroot] at haccepted
          cases haccepted
      have hopened : r'.opened = [] := by
        obtain ⟨hnest, -⟩ := Reader.next_nest hnext
        rw [hnest]
        exact List.length_eq_zero_iff.1 (hnested.length_eq.trans outside)
      have hend : r' = ⟨[], []⟩ := by
        rw [← hbehind, ← hopened]
      exact .selfClosing hunfinished (hend ▸ hnext) hclosed hstep

/-- The way of the decoder to the end of the root, from any position on. -/
theorem completing_of_position
    (hbalanced : Balanced es)
    (hlength : es.length = last + 1)
    (hlast : CompletesRoot es last)
    (hfirst : ∀ j < last, ¬ CompletesRoot es j)
    (hi : i ≤ last)
    (htracks : Tracks es i s)
    (hnested : Nested es i r)
    (hread : r.read = ⟨es.drop i, .finished⟩)
    (hclosed : r.rest.getLast? = some Markup.closing)
    (haccepted : (s.readOn r).fault = none) :
    ∃ tag, es.getLast? = some tag ∧ Completing tag s r := by
  generalize hn : last - i = n
  induction n generalizing i s r with
  | zero =>
      obtain rfl : i = last := by omega
      have hlt : i < es.length := by omega
      have hunfinished := htracks.unfinished hbalanced hfirst
      have hdrop : es.drop (i + 1) = [] := List.drop_eq_nil_of_le (Nat.le_of_eq hlength)
      rw [List.drop_eq_getElem_cons hlt, hdrop] at hread
      obtain ⟨r', hnext, hread'⟩ := Reader.next_of_read_cons hread
      have hbehind : r'.rest = [] := by
        obtain ⟨used, hused, -⟩ := Reader.next_extent (Or.inr hclosed) hnext
        refine (Reader.rest_of_next_none (Reader.next_of_read_nil hread')).resolve_right ?_
        intro hrest
        rw [hused, hrest, List.getLast?_concat] at hclosed
        cases hclosed
      refine ⟨es[i], ?_, ?_⟩
      · rw [List.getLast?_eq_getElem?, hlength]
        exact List.getElem?_eq_getElem hlt
      · exact completing_last hlast htracks hnested hunfinished (List.getElem?_eq_getElem hlt) hnext
          hbehind hclosed haccepted
  | succ n ih =>
      have hlt : i < es.length := by omega
      have hevent : es[i]? = some es[i] := List.getElem?_eq_getElem hlt
      have hunfinished :=
        htracks.unfinished hbalanced fun j hj => hfirst j (Nat.lt_of_lt_of_le hj hi)
      rw [List.drop_eq_getElem_cons hlt] at hread
      obtain ⟨r', hnext, hread'⟩ := Reader.next_of_read_cons hread
      obtain ⟨t, hstep, htracks'⟩ :=
        reading_of_accepted hbalanced htracks hevent (hfirst i (by omega)) hnext haccepted
      have hrest : r'.rest ≠ [] := by
        intro hnil
        have hlt' : i + 1 < es.length := by omega
        rw [List.drop_eq_getElem_cons hlt'] at hread'
        obtain ⟨r'', hnext', -⟩ := Reader.next_of_read_cons hread'
        simp [Reader.next, hnil] at hnext'
      obtain ⟨used, hused, -⟩ := Reader.next_extent (Or.inl hrest) hnext
      rw [hused, List.getLast?_append_of_ne_nil used hrest] at hclosed
      rw [State.readOn_of_reading hnext hstep] at haccepted
      have hnested' := hnested.succ hbalanced htracks.depth hevent hnext hstep
      obtain ⟨tag, htag, hlater⟩ :=
        ih (by omega) htracks' hnested' hread' hclosed haccepted (by omega)
      exact ⟨tag, htag, .passes hunfinished hnext hstep hlater⟩

end Positions

/-! ## Bytes behind the root -/

section Behind

variable {tag : Event} {s : State} {r : Reader}

theorem Completing.unfinished
    (h : Completing tag s r) :
    (s.finish .finished).fault ≠ none := by
  cases h <;> assumption

theorem Completing.rest_ne_nil
    (h : Completing tag s r) :
    r.rest ≠ [] := by
  intro hnil
  have hend : r.next = .ok none := by simp [Reader.next, hnil]
  cases h with
  | passes _ next =>
      rw [hend] at next
      cases next
  | endTag _ next =>
      rw [hend] at next
      cases next
  | selfClosing _ next =>
      rw [hend] at next
      cases next

/-- Bytes behind the end tag of the root change nothing. -/
theorem Completing.readOn_append_endTag
    (h : Completing tag s r)
    (htag : ∃ name, tag = .stop name)
    (more : Bytes) :
    s.readOn ⟨r.rest ++ more, r.opened⟩ = s.readOn r := by
  induction h with
  | passes _ next step later ih =>
      have hnext := Reader.next_append next later.rest_ne_nil more
      rw [State.readOn_of_reading next step, State.readOn_of_reading hnext step]
      exact ih htag
  | endTag _ next behind closed _ step =>
      obtain ⟨used, hused, -, hextent⟩ := Reader.next_extent (Or.inr closed) next
      rw [behind, List.append_nil] at hused
      have hnext := hextent.found more trivial
      rw [← hused] at hnext
      rw [State.readOn_of_finished next step, State.readOn_of_finished hnext step]
  | selfClosing =>
      obtain ⟨name, htag⟩ := htag
      cases htag

/-- Bytes behind a root without content are decoded as well. -/
theorem Completing.readOn_append_selfClosing
    (h : Completing tag s r)
    (htag : ∃ name, tag = .empty name)
    (more : Bytes) :
    s.readOn ⟨r.rest ++ more, r.opened⟩ =
      State.readOn { message := (s.readOn r).message, rootSeen := true } ⟨more, []⟩ := by
  induction h with
  | passes _ next step later ih =>
      have hnext := Reader.next_append next later.rest_ne_nil more
      rw [State.readOn_of_reading next step, State.readOn_of_reading hnext step]
      exact ih htag
  | endTag =>
      obtain ⟨name, htag⟩ := htag
      cases htag
  | selfClosing _ next closed step =>
      obtain ⟨used, hused, -, hextent⟩ := Reader.next_extent (Or.inr closed) next
      rw [List.append_nil] at hused
      have hnext := hextent.found more trivial
      rw [← hused, ← (Reader.next_nest next).1] at hnext
      rw [State.readOn_of_reading next step, State.readOn_of_reading hnext step]
      rw [State.readOn_of_end (r := ⟨[], []⟩) rfl]
      rfl

end Behind

/-! ## Bytes that have been cut off -/

section Cut

variable {tag : Event} {s : State} {r : Reader}

/-- Whether the end of the input is refused depends on the depth and on the root alone. -/
theorem finish_fault_congr
    {t : State}
    (hdepth : t.depth = s.depth)
    (hroot : t.rootSeen = s.rootSeen) :
    (t.finish .finished).fault = (s.finish .finished).fault := by
  simp only [State.finish, hdepth, hroot]
  split
  · rfl
  · split <;> rfl

theorem append_depth
    (s : State)
    (f : Field)
    (added : String) :
    (s.append f added).depth = s.depth ∧ (s.append f added).rootSeen = s.rootSeen := by
  cases f <;> exact ⟨rfl, rfl⟩

/-- Character data at the end of the input leads nowhere. -/
theorem readOn_text_refused
    {content : Bytes}
    {opened : List Bytes}
    (hunfinished : (s.finish .finished).fault ≠ none)
    (hnext : r.next = .ok (some (.text content, ⟨[], opened⟩))) :
    (s.readOn r).fault ≠ none := by
  have hstep := step_content s (e := .text content) rfl
  cases hreceiver : s.receiver with
  | none =>
      rw [hreceiver] at hstep
      rw [State.readOn_of_reading hnext hstep, State.readOn_of_end rfl]
      exact hunfinished
  | some f =>
      rw [hreceiver] at hstep
      cases hread : readText (.text content) with
      | error fault =>
          rw [hread] at hstep
          rw [State.readOn_of_finished hnext hstep]
          simp
      | ok added =>
          rw [hread] at hstep
          obtain ⟨hdepth, hroot⟩ := append_depth s f (String.ofList added)
          rw [State.readOn_of_reading hnext hstep, State.readOn_of_end rfl]
          rw [finish_fault_congr hdepth hroot]
          exact hunfinished

/-- Without markup there is no root. -/
theorem readOn_plain_refused
    {part : Bytes}
    {opened : List Bytes}
    (hunfinished : (s.finish .finished).fault ≠ none)
    (hplain : ∀ b ∈ part, b ≠ Markup.opening) :
    (s.readOn ⟨part, opened⟩).fault ≠ none := by
  by_cases hnil : part = []
  · subst hnil
    rw [State.readOn_of_end rfl]
    exact hunfinished
  · have hnext : Reader.next ⟨part ++ [], opened⟩ = .ok (some (.text part, ⟨[], opened⟩)) :=
      Reader.next_content hnil hplain trivial
    rw [List.append_nil] at hnext
    exact readOn_text_refused hunfinished hnext

/-- Where an event has been cut, the push is refused, unless the event is an end tag that lacks only
what it can do without. -/
theorem readOn_brokenOff
    {e : Event}
    {missing : Bytes}
    (hunfinished : (s.finish .finished).fault ≠ none)
    (h : Reader.BrokenOff r.opened e missing r.next) :
    (s.readOn r).fault ≠ none ∨
      ∃ name, e = .stop name ∧ Markup.Dispensable missing ∧
        r.next = .ok (some (e, ⟨[], e.nest r.opened⟩)) := by
  generalize hnext : r.next = found at h
  cases h with
  | fault f =>
      left
      rw [State.readOn_of_fault hnext]
      simp [State.finish]
  | finished =>
      left
      rw [State.readOn_of_end hnext]
      exact hunfinished
  | text content => exact Or.inl (readOn_text_refused hunfinished hnext)
  | instruction =>
      left
      rw [State.readOn_of_reading hnext rfl, State.readOn_of_end rfl]
      exact hunfinished
  | unclosed name same dispensable => exact Or.inr ⟨name, same, dispensable, rfl⟩

/-- On the way to an end tag there is a `<` to come. -/
theorem Completing.opening_mem
    (h : Completing tag s r)
    (htag : ∃ name, tag = .stop name) :
    Markup.opening ∈ r.rest := by
  induction h with
  | passes _ next _ later ih =>
      obtain ⟨used, hused, -⟩ := Reader.next_extent (Or.inl later.rest_ne_nil) next
      rw [hused]
      exact List.mem_append_right used (ih htag)
  | endTag _ next =>
      obtain ⟨bytes, hrest, -⟩ := Reader.endTag_of_next next
      rw [hrest]
      exact List.mem_cons_self
  | selfClosing =>
      obtain ⟨name, htag⟩ := htag
      cases htag

/-- Where an event before the end of the root has been cut, the push is refused. -/
theorem Completing.readOn_brokenOff_refused
    {e : Event}
    {t : State}
    {r' : Reader}
    {lost : Bytes}
    (later : Completing tag t r')
    (hunfinished : (s.finish .finished).fault ≠ none)
    (hstep : s.step e = .reading t)
    (hbroken : Reader.BrokenOff r.opened e lost r.next) :
    (s.readOn r).fault ≠ none := by
  rcases readOn_brokenOff hunfinished hbroken with hrefused | ⟨name, -, -, hnext⟩
  · exact hrefused
  · rw [State.readOn_of_reading hnext hstep, State.readOn_of_end rfl]
    exact later.unfinished

/-- A push that ends with its root and has been cut is refused, unless the root has an end tag and
this lacks only what it can do without; then it is accepted like the whole. -/
theorem Completing.readOn_cut
    {part missing : Bytes}
    (h : Completing tag s r)
    (hcut : r.rest = part ++ missing)
    (hmissing : missing ≠ []) :
    AfterCut tag missing (s.readOn ⟨part, r.opened⟩) (s.readOn r) := by
  induction h generalizing part missing with
  | passes unfinished next step later ih =>
      rename_i tag e s t r r'
      obtain ⟨used, hused, hborders, hextent⟩ := Reader.next_extent (Or.inl later.rest_ne_nil) next
      -- what has been cut leaves this event whole
      have hwhole : ∀ part', r'.rest = part' ++ missing →
          AfterCut tag missing (s.readOn ⟨used ++ part', r.opened⟩) (s.readOn r) := by
        intro part' hpart'
        have hnext := hextent.found part' (Reader.borders_of_append (hpart' ▸ hborders))
        rw [← (Reader.next_nest next).1] at hnext
        rw [State.readOn_of_reading hnext step, State.readOn_of_reading next step]
        exact ih hpart' hmissing
      rw [hused] at hcut
      rcases List.append_eq_append_iff.1 hcut with ⟨part', rfl, hpart'⟩ | ⟨lost, hlost, rfl⟩
      · exact hwhole part' hpart'
      by_cases hnil : lost = []
      · subst hnil
        rw [List.append_nil] at hlost
        have := hwhole [] rfl
        rwa [List.append_nil, hlost] at this
      have hrefused := later.readOn_brokenOff_refused (r := ⟨part, r.opened⟩) unfinished step
        (hextent.broken part lost hlost hnil)
      refine ⟨fun haccepted => absurd haccepted hrefused, fun htag hdispensable => ?_⟩
      -- an end tag is still to come, so more is missing than it can do without
      exact absurd (List.mem_append_right lost (later.opening_mem htag)) hdispensable.not_mem
  | endTag unfinished next behind closed named step =>
      rename_i name s r r'
      obtain ⟨used, hused, -, hextent⟩ := Reader.next_extent (Or.inr closed) next
      rw [behind, List.append_nil] at hused
      have hbroken := hextent.broken part missing (hused ▸ hcut) hmissing
      refine ⟨fun haccepted => ⟨⟨name, rfl⟩, ?_⟩, fun _ hdispensable => ?_⟩
      · rcases readOn_brokenOff (r := ⟨part, r.opened⟩) unfinished hbroken with
          hrefused | ⟨-, -, hdispensable, -⟩
        · exact absurd haccepted hrefused
        · exact hdispensable
      · have hnext := Reader.next_unclosed hcut hdispensable behind named next
        rw [State.readOn_of_finished next step, State.readOn_of_finished hnext step]
  | selfClosing unfinished next closed step =>
      rename_i name s r
      obtain ⟨used, hused, -, hextent⟩ := Reader.next_extent (Or.inr closed) next
      rw [List.append_nil] at hused
      have hbroken := hextent.broken part missing (hused ▸ hcut) hmissing
      refine ⟨fun haccepted => ?_, fun ⟨name', htag⟩ => nomatch htag⟩
      rcases readOn_brokenOff (r := ⟨part, r.opened⟩) unfinished hbroken with
        hrefused | ⟨name', htag, -, -⟩
      · exact absurd haccepted hrefused
      · cases htag

end Cut

/-! ## Whole pushes -/

section Pushes

variable {bytes part missing : Bytes} {target : Message}

/-- A push that is accepted and ends with its root leads the decoder to the end of the root. -/
theorem EndsWithRoot.completing
    (hroot : EndsWithRoot bytes)
    (haccepted : (decode target bytes).fault = none) :
    ∃ tag, (Reading.ofBytes bytes).events.getLast? = some tag ∧
      Completing tag { message := .blank } (Reader.ofBytes bytes) := by
  obtain ⟨last, hlength, hlast, hfirst⟩ := hroot.complete
  rw [decode_eq_readOn] at haccepted
  refine completing_of_position (balanced_ofBytes bytes) hlength hlast hfirst (Nat.zero_le _)
    (tracks_start _ _) ⟨?_, ?_⟩ ?_ (Reader.ofBytes_closed hroot.closed) haccepted
  · rw [Reader.opened_ofBytes, depthAt_zero]
    rfl
  · intro name hname
    rw [Reader.opened_ofBytes] at hname
    cases hname
  · rw [List.drop_zero, ← hroot.finished]
    rfl

theorem Completing.tag_cases
    {tag : Event}
    {s : State}
    {r : Reader}
    (h : Completing tag s r) :
    (∃ name, tag = .stop name) ∨ ∃ name, tag = .empty name := by
  induction h with
  | passes _ _ _ _ ih => exact ih
  | endTag => exact Or.inl ⟨_, rfl⟩
  | selfClosing => exact Or.inr ⟨_, rfl⟩

/-- A further root is refused if it is named otherwise. -/
theorem readOn_other_root (m : Message) :
    (State.readOn { message := m, rootSeen := true } ⟨Utf8.ofString "<a/>", []⟩).fault =
      some (.unexpectedRoot "a") := by
  have hnext : Reader.next ⟨Utf8.ofString "<a/>", []⟩ =
      .ok (some (.empty (Utf8.ofString "a"), ⟨[], []⟩)) := by
    rfl
  have hstep :
      State.step { message := m, rootSeen := true } (.empty (Utf8.ofString "a")) =
        .finished ⟨m, some (.unexpectedRoot "a")⟩ := by
    have hlossy : Utf8.lossy (Utf8.ofString "a") = "a" := by
      decide +kernel
    exact congrArg (fun cause => Progress.finished ⟨m, some (.unexpectedRoot cause)⟩) hlossy
  rw [State.readOn_of_finished hnext hstep]

/-- **Bytes behind the root.**  Whatever follows a push that is accepted and ends with its root, the
outcome stays, if the root has an end tag; and only then.  What follows a root without content is
decoded as a document with a root that has been seen already. -/
theorem decode_append
    (target : Message)
    (bytes : Bytes)
    (hroot : EndsWithRoot bytes)
    (haccepted : (decode target bytes).fault = none) :
    ((∀ more, decode target (bytes ++ more) = decode target bytes) ↔ EndsWithEndTag bytes) ∧
    (¬ EndsWithEndTag bytes → ∀ more,
      decode target (bytes ++ more) =
        State.readOn { message := (decode target bytes).message, rootSeen := true } ⟨more, []⟩) := by
  obtain ⟨tag, hlast, hcompleting⟩ := hroot.completing haccepted
  have hended : EndsWithEndTag bytes ↔ ∃ name, tag = .stop name := by
    simp only [EndsWithEndTag, hlast, Option.some.injEq]
  have hselfClosing : ¬ EndsWithEndTag bytes → ∀ more,
      decode target (bytes ++ more) =
        State.readOn { message := (decode target bytes).message, rootSeen := true } ⟨more, []⟩ := by
    intro hnot more
    have htag := hcompleting.tag_cases.resolve_left (mt hended.2 hnot)
    rw [decode_eq_readOn, decode_eq_readOn target bytes,
      Reader.ofBytes_append (Reader.mark_of_closed hroot.closed more)]
    exact hcompleting.readOn_append_selfClosing htag more
  refine ⟨⟨?_, ?_⟩, hselfClosing⟩
  · intro hsame
    by_contra hnot
    have hother := hselfClosing hnot (Utf8.ofString "<a/>")
    rw [hsame] at hother
    rw [hother, readOn_other_root] at haccepted
    cases haccepted
  · intro htag more
    rw [decode_eq_readOn, decode_eq_readOn target bytes,
      Reader.ofBytes_append (Reader.mark_of_closed hroot.closed more)]
    exact hcompleting.readOn_append_endTag (hended.1 htag) more

/-- A push with one child and its events. -/
theorem ofBytes_textPush :
    Reading.ofBytes (Utf8.ofString "<xml><MsgType>text</MsgType></xml>") =
      ⟨[.start (Utf8.ofString "xml"), .start (Utf8.ofString "MsgType"),
        .text (Utf8.ofString "text"), .stop (Utf8.ofString "MsgType"),
        .stop (Utf8.ofString "xml")], .finished⟩ := by
  decide +kernel

theorem endsWithRoot_textPush :
    EndsWithRoot (Utf8.ofString "<xml><MsgType>text</MsgType></xml>") := by
  refine ⟨by decide, ?_, 4, ?_⟩
  · rw [ofBytes_textPush]
  · rw [ofBytes_textPush]
    decide

theorem accepted_textPush :
    (decode .blank (Utf8.ofString "<xml><MsgType>text</MsgType></xml>")).fault = none := by
  decide +kernel

/-- Nothing behind a push with an end tag changes it. -/
theorem decode_append_textPush :
    let bytes := Utf8.ofString "<xml><MsgType>text</MsgType></xml>"
    EndsWithRoot bytes ∧ (decode .blank bytes).fault = none ∧
      ∀ more, decode .blank (bytes ++ more) = decode .blank bytes := by
  have hended : EndsWithEndTag (Utf8.ofString "<xml><MsgType>text</MsgType></xml>") := by
    refine ⟨Utf8.ofString "xml", ?_⟩
    rw [ofBytes_textPush]
    rfl
  refine ⟨endsWithRoot_textPush, accepted_textPush, ?_⟩
  exact (decode_append .blank _ endsWithRoot_textPush accepted_textPush).1.2 hended

/-- A second element behind a root without content makes the push one that is refused. -/
theorem decode_append_emptyRoot :
    let bytes := Utf8.ofString "<xml/>"
    EndsWithRoot bytes ∧ (decode .blank bytes).fault = none ∧
      (decode .blank (bytes ++ Utf8.ofString "<foo/>")).fault = some (.unexpectedRoot "foo") := by
  have hread : Reading.ofBytes (Utf8.ofString "<xml/>") =
      ⟨[.empty (Utf8.ofString "xml")], .finished⟩ := by
    decide +kernel
  refine ⟨⟨by decide, ?_, 0, ?_⟩, by decide +kernel, by decide +kernel⟩
  · rw [hread]
  · rw [hread]
    decide

/-- **Truncated pushes.**  What is left of a push that is accepted and ends with its root, when bytes
have been cut off its end, is accepted exactly if the root has an end tag and no more is missing
than its `>` and white space before that; then it is decoded like the whole. -/
theorem decode_truncated
    (target : Message)
    (bytes part missing : Bytes)
    (hroot : EndsWithRoot bytes)
    (haccepted : (decode target bytes).fault = none)
    (hcut : bytes = part ++ missing)
    (hmissing : missing ≠ []) :
    ((decode target part).fault = none ↔
      EndsWithEndTag bytes ∧ Markup.Dispensable missing) ∧
    (EndsWithEndTag bytes → Markup.Dispensable missing →
      decode target part = decode target bytes) := by
  obtain ⟨tag, hlast, hcompleting⟩ := hroot.completing haccepted
  have hended : EndsWithEndTag bytes ↔ ∃ name, tag = .stop name := by
    simp only [EndsWithEndTag, hlast, Option.some.injEq]
  subst hcut
  rw [decode_eq_readOn, decode_eq_readOn target (part ++ missing), hended]
  by_cases hmark : Reader.byteOrderMark <+: part ∨ ¬ Reader.byteOrderMark <+: part ++ missing
  · have hbytes := Reader.ofBytes_append hmark
    have hrest := congrArg Reader.rest hbytes
    obtain ⟨haccepts, hsame⟩ := hcompleting.readOn_cut hrest hmissing
    rw [hbytes] at haccepts hsame
    rw [decode_eq_readOn, hbytes] at haccepted
    rw [hbytes]
    refine ⟨⟨haccepts, ?_⟩, hsame⟩
    rintro ⟨htag, hdispensable⟩
    rw [hsame htag hdispensable, haccepted]
  · obtain ⟨hpart, hwhole⟩ := not_or.1 hmark
    obtain ⟨hplain, hindispensable⟩ := Reader.plain_of_cut_mark (not_not.1 hwhole) hpart
    have hrefused : (State.readOn { message := .blank } ⟨part, []⟩).fault ≠ none :=
      readOn_plain_refused hcompleting.unfinished hplain
    rw [Reader.ofBytes_of_not_mark hpart]
    refine ⟨⟨fun h => absurd h hrefused, fun h => absurd h.2 hindispensable⟩, ?_⟩
    intro _ hdispensable
    exact absurd hdispensable hindispensable

/-- A push that breaks off inside the content of a child is refused. -/
theorem decode_truncated_textPush :
    let bytes := Utf8.ofString "<xml><MsgType>text</MsgType></xml>"
    let part := Utf8.ofString "<xml><MsgType>te"
    let missing := Utf8.ofString "xt</MsgType></xml>"
    EndsWithRoot bytes ∧ (decode .blank bytes).fault = none ∧ bytes = part ++ missing ∧
      missing ≠ [] ∧ (decode .blank part).fault ≠ none := by
  intro bytes part missing
  have hcut : bytes = part ++ missing := by decide
  have hmissing : missing ≠ [] := by decide
  refine ⟨endsWithRoot_textPush, accepted_textPush, hcut, hmissing, ?_⟩
  obtain ⟨haccepts, -⟩ :=
    decode_truncated .blank bytes part missing endsWithRoot_textPush accepted_textPush hcut hmissing
  intro haccepted
  obtain ⟨-, hdispensable⟩ := haccepts.1 haccepted
  exact absurd hdispensable.not_mem (by decide)

/-- A push that lacks its last byte is accepted. -/
theorem decode_truncated_lastByte :
    let bytes := Utf8.ofString "<xml></xml>"
    let part := Utf8.ofString "<xml></xml"
    let missing := Utf8.ofString ">"
    EndsWithRoot bytes ∧ (decode .blank bytes).fault = none ∧ bytes = part ++ missing ∧
      missing ≠ [] ∧ (decode .blank part).fault = none := by
  have hread : Reading.ofBytes (Utf8.ofString "<xml></xml>") =
      ⟨[.start (Utf8.ofString "xml"), .stop (Utf8.ofString "xml")], .finished⟩ := by
    decide +kernel
  refine ⟨⟨by decide, ?_, 1, ?_⟩, by decide +kernel, by decide, by decide, by decide +kernel⟩
  · rw [hread]
  · rw [hread]
    decide

end Pushes

end Decoder
end PushGate
