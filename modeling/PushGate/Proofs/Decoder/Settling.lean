import PushGate.Proofs.Decoder.Loop
import PushGate.Proofs.Decoder.Position

/-!
# What settles a push

What becomes of a push is settled by the first of its events that is decisive where it stands, or by
its end.  `Settles` says which events these are, by position: the decoder's own state does not occur
in it.

The state of the decoder is a summary of the position it stands at (`Tracks`): its depth is the
number of open elements, its field is that of the open child, and of a number it has read exactly
what stands directly in that child.  An event that is not decisive leads from one such summary to
the next; one that is decisive stops the decoder with the verdict that the position gives.

**Results.**
* `step_tracks`: one event, decisive or not.
* `run_settles`: a run ends at the first decisive position.
* `run_eraseIdx`: an event that changes nothing may as well not stand there.
-/

namespace PushGate

open Markup (Event Ending Reading)

namespace Decoder

/-- The event at a position, or the end behind the last one, settles the push: it is accepted, or
refused with a fault. -/
inductive Settles (r : Reading) : Nat → Option Error → Prop
  | wrongRoot
      {i : Nat} {name : Bytes}
      (tag : r.events[i]? = some (.start name) ∨ r.events[i]? = some (.empty name))
      (outside : depthAt r.events i = 0)
      (other : Markup.localName name ≠ rootName) :
      Settles r i (some (.unexpectedRoot (Utf8.lossy (Markup.localName name))))
  | badText
      {i j : Nat} {f : Field} {content : Bytes} {e : Markup.Error}
      (text : r.events[i]? = some (.text content))
      (place : DirectlyIn r.events j i f)
      (fault : Markup.characterData content = .error e) :
      Settles r i (some (.malformed e))
  | badCdata
      {i j : Nat} {f : Field} {content : Bytes} {e : Utf8.Error}
      (cdata : r.events[i]? = some (.cdata content))
      (place : DirectlyIn r.events j i f)
      (fault : Utf8.decode content = .error e) :
      Settles r i (some (.notUtf8 e))
  | badNumber
      {i j : Nat} {f : NumberField} {name : Bytes}
      (tag : r.events[i]? = some (.stop name))
      (place : DirectlyIn r.events j i (.number f))
      (given : contentOf r.events j i ≠ [])
      (fault : f.parse? (contentOf r.events j i) = none) :
      Settles r i (some (.invalidNumber f (String.ofList (contentOf r.events j i))))
  | rootClosed
      {i : Nat} {name : Bytes}
      (tag : r.events[i]? = some (.stop name))
      (inRoot : depthAt r.events i = 1) :
      Settles r i none
  | malformed
      {e : Markup.Error}
      (ending : r.ending = .malformed e) :
      Settles r r.events.length (some (.malformed e))
  | truncated
      (ending : r.ending = .finished)
      (inside : 0 < depthAt r.events r.events.length) :
      Settles r r.events.length (some .truncated)
  | missingRoot
      (ending : r.ending = .finished)
      (outside : depthAt r.events r.events.length = 0)
      (noElement : ∀ e ∈ r.events, e.isElement = false) :
      Settles r r.events.length (some .missingRoot)
  | ended
      (ending : r.ending = .finished)
      (outside : depthAt r.events r.events.length = 0)
      (element : ∃ e ∈ r.events, e.isElement = true) :
      Settles r r.events.length none

section Verdicts

variable {r : Reading} {i : Nat} {v : Option Error}

/-- An element is decisive where it is the root. -/
theorem settles_at_element_iff
    {name : Bytes}
    (hi : r.events[i]? = some (.start name) ∨ r.events[i]? = some (.empty name)) :
    Settles r i v ↔
      depthAt r.events i = 0 ∧
        Markup.localName name ≠ rootName ∧
        v = some (.unexpectedRoot (Utf8.lossy (Markup.localName name))) := by
  constructor
  · intro h
    cases h with
    | wrongRoot tag outside other => grind
    | _ => rcases hi with hi | hi <;> simp_all
  · rintro ⟨houtside, hother, rfl⟩
    exact .wrongRoot hi houtside hother

theorem settles_at_content_iff
    {e : Event}
    (hi : r.events[i]? = some e)
    (he : e.isContent = true) :
    Settles r i v ↔
      ∃ j f fault, DirectlyIn r.events j i f ∧
        readText e = .error fault ∧
        v = some fault := by
  cases e with
  | text content =>
      constructor
      · intro h
        cases h with
        | badText text place fault =>
            rw [hi] at text
            cases text
            exact ⟨_, _, _, place, by simp [readText, fault], rfl⟩
        | _ => simp_all
      · rintro ⟨j, f, fault, hplace, hread, rfl⟩
        cases hdata : Markup.characterData content with
        | ok text => simp [readText, hdata] at hread
        | error e =>
            simp only [readText, hdata, Except.error.injEq] at hread
            rw [← hread]
            exact .badText hi hplace hdata
  | cdata content =>
      constructor
      · intro h
        cases h with
        | badCdata cdata place fault =>
            rw [hi] at cdata
            cases cdata
            exact ⟨_, _, _, place, by simp [readText, fault], rfl⟩
        | _ => simp_all
      · rintro ⟨j, f, fault, hplace, hread, rfl⟩
        cases hdata : Utf8.decode content with
        | ok text => simp [readText, hdata] at hread
        | error e =>
            simp only [readText, hdata, Except.error.injEq] at hread
            rw [← hread]
            exact .badCdata hi hplace hdata
  | _ => cases he

theorem settles_at_stop_iff
    {name : Bytes}
    (hi : r.events[i]? = some (.stop name)) :
    Settles r i v ↔
      (depthAt r.events i = 1 ∧ v = none) ∨
      ∃ j f, DirectlyIn r.events j i (.number f) ∧
        contentOf r.events j i ≠ [] ∧
        f.parse? (contentOf r.events j i) = none ∧
        v = some (.invalidNumber f (String.ofList (contentOf r.events j i))) := by
  constructor
  · intro h
    cases h with
    | badNumber tag place given fault =>
        exact Or.inr ⟨_, _, place, given, fault, rfl⟩
    | rootClosed tag inRoot => exact Or.inl ⟨inRoot, rfl⟩
    | _ => simp_all
  · rintro (⟨hroot, rfl⟩ | ⟨j, f, hplace, hgiven, hfault, rfl⟩)
    · exact .rootClosed hi hroot
    · exact .badNumber hi hplace hgiven hfault

/-- Comments, instructions and declarations of the document type are never decisive. -/
theorem not_settles_at_mute
    {e : Event}
    (hi : r.events[i]? = some e)
    (he : e = .comment ∨ e = .instruction ∨ e = .doctype) :
    ¬ Settles r i v := by
  intro h
  rcases he with rfl | rfl | rfl <;>
    cases h <;> simp_all

end Verdicts

/-- The state of the decoder is a summary of the position that it stands at. -/
structure Tracks (es : List Event) (i : Nat) (s : State) : Prop where
  depth : s.depth = depthAt es i
  rootSeen : s.rootSeen = true ↔ ∃ e ∈ es.take i, e.isElement = true
  rootOpen : 0 < s.depth → s.rootSeen = true
  outside : s.depth < 2 → s.field = none ∧ s.scratch = ""
  inside :
    2 ≤ s.depth →
      ∃ j name, ChildAt es j i name ∧
        s.field = Field.ofTag (Markup.localName name) ∧
        s.scratch = collected s.field (contentOf es j i)

section Tracking

variable {es : List Event} {i : Nat} {s : State} {e : Event}

theorem tracks_start (es : List Event) (m : Message) :
    Tracks es 0 { message := m } := by
  refine ⟨depthAt_zero.symm, ?_, ?_, ?_, ?_⟩
  · simp
  · intro h
    simp at h
  · exact fun _ => ⟨rfl, rfl⟩
  · intro h
    simp at h

theorem exists_isElement_take_succ
    (hi : es[i]? = some e) :
    (∃ d ∈ es.take (i + 1), d.isElement = true) ↔
      (∃ d ∈ es.take i, d.isElement = true) ∨ e.isElement = true := by
  rw [take_succ_of_getElem? hi]
  constructor
  · rintro ⟨d, hd, helement⟩
    rcases List.mem_append.1 hd with hd | hd
    · exact Or.inl ⟨d, hd, helement⟩
    · rw [List.mem_singleton] at hd
      exact Or.inr (hd ▸ helement)
  · rintro (⟨d, hd, helement⟩ | helement)
    · exact ⟨d, List.mem_append_left _ hd, helement⟩
    · exact ⟨e, List.mem_append_right _ (List.mem_singleton.2 rfl), helement⟩

/-- The field that character data goes to is that of the child in which it directly stands. -/
theorem Tracks.receiver_eq_some_iff
    {f : Field}
    (h : Tracks es i s) :
    s.receiver = some f ↔ ∃ j, DirectlyIn es j i f := by
  rw [State.receiver]
  constructor
  · intro hreceiver
    by_cases hdepth : s.depth = 2
    · rw [if_pos hdepth] at hreceiver
      obtain ⟨j, name, hchild, hfield, -⟩ := h.inside (by omega)
      exact ⟨j, h.depth ▸ hdepth, name, hchild, hfield ▸ hreceiver⟩
    · rw [if_neg hdepth] at hreceiver
      cases hreceiver
  · rintro ⟨j, hdepth, name, hchild, hname⟩
    rw [← h.depth] at hdepth
    obtain ⟨j', name', hchild', hfield, -⟩ := h.inside (by omega)
    obtain ⟨-, rfl⟩ := childAt_unique hchild hchild'
    rw [if_pos hdepth, hfield, hname]

/-- The open child, behind an event without text that does not close it. -/
theorem Tracks.inside_succ
    (h : Tracks es i s)
    (hi : es[i]? = some e)
    (hsilent : textOf e = [])
    (hinside : 2 ≤ s.depth)
    (hnext : 2 ≤ depthAt es (i + 1)) :
    ∃ j name, ChildAt es j (i + 1) name ∧
      s.field = Field.ofTag (Markup.localName name) ∧
      s.scratch = collected s.field (contentOf es j (i + 1)) := by
  obtain ⟨j, name, hchild, hfield, hscratch⟩ := h.inside hinside
  refine ⟨j, name, hchild.succ hnext, hfield, ?_⟩
  rw [contentOf_succ_of_silent hi hchild.before hsilent]
  exact hscratch

/-- An event that leaves the state as it is, being no tag and adding no text. -/
theorem Tracks.succ_of_silent
    (h : Tracks es i s)
    (hi : es[i]? = some e)
    (hflat : e.Flat)
    (helement : e.isElement = false)
    (hsilent : s.receiver = none ∨ textOf e = []) :
    Tracks es (i + 1) s := by
  have hdepth := depthAt_succ_of_flat hi hflat
  refine ⟨?_, ?_, h.rootOpen, h.outside, ?_⟩
  · rw [hdepth, h.depth]
  · rw [h.rootSeen, exists_isElement_take_succ hi, helement]
    simp
  · intro hinside
    obtain ⟨j, name, hchild, hfield, hscratch⟩ := h.inside hinside
    have hchild' : ChildAt es j (i + 1) name := by
      apply hchild.succ
      rw [hdepth, ← h.depth]
      exact hinside
    refine ⟨j, name, hchild', hfield, ?_⟩
    rw [hscratch, contentOf_succ hi hchild.before]
    rcases hsilent with hnone | hempty
    · rw [State.receiver] at hnone
      rw [← h.depth]
      by_cases hd : s.depth = 2
      · rw [if_pos hd] at hnone
        rw [hnone]
        rfl
      · rw [if_neg hd, List.append_nil]
    · rw [hempty]
      simp

/-- Text that stands directly in a field joins what has been read of the field. -/
theorem Tracks.succ_of_text
    {f : Field}
    {added : List Char}
    (h : Tracks es i s)
    (hi : es[i]? = some e)
    (hflat : e.Flat)
    (helement : e.isElement = false)
    (hreceiver : s.receiver = some f)
    (hadded : textOf e = added) :
    Tracks es (i + 1) (s.append f (String.ofList added)) := by
  have hdepth := depthAt_succ_of_flat hi hflat
  have hd : s.depth = 2 := by
    rw [State.receiver] at hreceiver
    by_cases hd : s.depth = 2
    · exact hd
    · rw [if_neg hd] at hreceiver
      cases hreceiver
  have hf : s.field = some f := by
    rw [State.receiver, if_pos hd] at hreceiver
    exact hreceiver
  obtain ⟨j, name, hchild, hfield, hscratch⟩ := h.inside (by omega)
  have hchild' : ChildAt es j (i + 1) name := by
    apply hchild.succ
    rw [hdepth, ← h.depth]
    omega
  have hcontent :
      contentOf es j (i + 1) = contentOf es j i ++ added := by
    rw [contentOf_succ hi hchild.before, ← h.depth, if_pos hd, hadded]
  have hroot :
      s.rootSeen = true ↔ ∃ d ∈ es.take (i + 1), d.isElement = true := by
    rw [h.rootSeen, exists_isElement_take_succ hi, helement]
    simp
  cases f with
  | text f =>
      refine ⟨?_, hroot, h.rootOpen, ?_, ?_⟩
      · exact h.depth.trans hdepth.symm
      · exact h.outside
      · intro _
        refine ⟨j, name, hchild', hfield, ?_⟩
        simp only [State.append]
        rw [hscratch, hf]
        rfl
  | number f =>
      refine ⟨?_, hroot, h.rootOpen, ?_, ?_⟩
      · exact h.depth.trans hdepth.symm
      · intro hlt
        simp only [State.append] at hlt
        omega
      · intro _
        refine ⟨j, name, hchild', hfield, ?_⟩
        simp only [State.append]
        rw [hscratch, hf, hcontent]
        simp [collected]

end Tracking

/-- What the decoder does at a position is what the position asks for: it stops exactly with the
verdict of a decisive event, and otherwise goes on to the next position. -/
def Progress.Accords (p : Progress) (r : Reading) (i : Nat) : Prop :=
  match p with
  | .reading t => Tracks r.events (i + 1) t ∧ ∀ v, ¬ Settles r i v
  | .finished o => ∀ v, Settles r i v ↔ v = o.fault

/-- Content goes to the field in which it directly stands, if there is one. -/
theorem step_content
    (s : State)
    {e : Event}
    (he : e.isContent = true) :
    s.step e =
      match s.receiver with
      | none => .reading s
      | some f =>
          match readText e with
          | .ok added => .reading (s.append f (String.ofList added))
          | .error fault => s.fail fault := by
  cases e with
  | text content =>
      simp only [State.step, State.characters, readText]
      cases s.receiver with
      | none => rfl
      | some f => cases Markup.characterData content <;> rfl
  | cdata content =>
      simp only [State.step, State.cdataSection, readText]
      cases s.receiver with
      | none => rfl
      | some f => cases Utf8.decode content <;> rfl
  | _ => cases he

/-- A root element is met: it must have the root's name. -/
theorem accords_enterRoot
    {r : Reading} {i : Nat} {s next : State} {name : Bytes}
    (hsettles : ∀ v, Settles r i v ↔
      depthAt r.events i = 0 ∧
        Markup.localName name ≠ rootName ∧
        v = some (.unexpectedRoot (Utf8.lossy (Markup.localName name))))
    (hdepth : depthAt r.events i = 0)
    (hnext : Tracks r.events (i + 1) { next with rootSeen := true }) :
    (s.enterRoot next (Markup.localName name)).Accords r i := by
  rw [State.enterRoot]
  by_cases hname : Markup.localName name = rootName
  · rw [if_pos hname]
    exact ⟨hnext, fun v hv => ((hsettles v).1 hv).2.1 hname⟩
  · rw [if_neg hname]
    intro v
    rw [hsettles v]
    constructor
    · exact fun hv => hv.2.2
    · exact fun hv => ⟨hdepth, hname, hv⟩

section Step

variable {r : Reading} {i : Nat} {s : State}
variable (h : Tracks r.events i s)
include h

theorem accords_start
    {name : Bytes}
    (hbalanced : Balanced r.events)
    (hi : r.events[i]? = some (.start name)) :
    (s.step (.start name)).Accords r i := by
  have hnext := depthAt_succ_of_opens hbalanced hi rfl
  have hdepth := h.depth
  have hroot :
      ∃ e ∈ r.events.take (i + 1), e.isElement = true :=
    (exists_isElement_take_succ hi).2 (Or.inr rfl)
  have hsettles : ∀ v, Settles r i v ↔ _ := fun v => settles_at_element_iff (Or.inl hi)
  simp only [State.step, State.openElement]
  by_cases hzero : s.depth = 0
  · rw [if_pos hzero]
    apply accords_enterRoot hsettles (by omega)
    refine ⟨?_, ?_, ?_, ?_, ?_⟩
    · exact (congrArg (· + 1) hdepth).trans hnext.symm
    · exact ⟨fun _ => hroot, fun _ => rfl⟩
    · exact fun _ => rfl
    · exact fun _ => h.outside (by omega)
    · intro hinside
      simp only at hinside
      omega
  · have hquiet : ∀ v, ¬ Settles r i v := by
      intro v hv
      have := ((hsettles v).1 hv).1
      omega
    have hopen := h.rootOpen (by omega)
    rw [if_neg hzero]
    by_cases hone : s.depth = 1
    · rw [if_pos hone]
      have hchild := childAt_of_start hbalanced hi (hdepth ▸ hone)
      have hscratch := (h.outside (by omega)).2
      refine ⟨⟨?_, ?_, ?_, ?_, ?_⟩, hquiet⟩
      · simp [hdepth, hnext]
      · simp [hopen, hroot]
      · simp [hopen]
      · intro hlt
        simp only [State.clearField_depth] at hlt
        omega
      · intro _
        refine ⟨i, name, hchild, rfl, ?_⟩
        rw [contentOf_start, collected_nil]
        simpa using hscratch
    · rw [if_neg hone]
      refine ⟨⟨?_, ?_, ?_, ?_, ?_⟩, hquiet⟩
      · exact (congrArg (· + 1) hdepth).trans hnext.symm
      · exact ⟨fun _ => hroot, fun _ => hopen⟩
      · exact fun _ => hopen
      · intro hlt
        simp only at hlt
        omega
      · exact fun _ => h.inside_succ hi rfl (by omega) (by omega)

theorem accords_empty
    {name : Bytes}
    (hi : r.events[i]? = some (.empty name)) :
    (s.step (.empty name)).Accords r i := by
  have hnext := depthAt_succ_of_flat hi ⟨rfl, rfl⟩
  have hdepth := h.depth
  have hroot :
      ∃ e ∈ r.events.take (i + 1), e.isElement = true :=
    (exists_isElement_take_succ hi).2 (Or.inr rfl)
  have hsettles : ∀ v, Settles r i v ↔ _ := fun v => settles_at_element_iff (Or.inr hi)
  simp only [State.step, State.emptyElement]
  by_cases hzero : s.depth = 0
  · rw [if_pos hzero]
    apply accords_enterRoot hsettles (by omega)
    refine ⟨?_, ?_, ?_, ?_, ?_⟩
    · exact hdepth.trans hnext.symm
    · exact ⟨fun _ => hroot, fun _ => rfl⟩
    · exact fun _ => rfl
    · exact h.outside
    · intro hinside
      simp only at hinside
      omega
  · have hquiet : ∀ v, ¬ Settles r i v := by
      intro v hv
      have := ((hsettles v).1 hv).1
      omega
    have hopen := h.rootOpen (by omega)
    rw [if_neg hzero]
    by_cases hone : s.depth = 1
    · rw [if_pos hone]
      refine ⟨⟨?_, ?_, ?_, ?_, ?_⟩, hquiet⟩
      · simp [hdepth, hnext]
      · simp [hopen, hroot]
      · simp [hopen]
      · intro _
        simpa using h.outside (by omega)
      · intro hinside
        simp only [State.clearField_depth] at hinside
        omega
    · rw [if_neg hone]
      refine ⟨⟨?_, ?_, h.rootOpen, h.outside, ?_⟩, hquiet⟩
      · exact hdepth.trans hnext.symm
      · exact ⟨fun _ => hroot, fun _ => hopen⟩
      · exact fun _ => h.inside_succ hi rfl (by omega) (by omega)

theorem accords_content
    {e : Event}
    (hi : r.events[i]? = some e)
    (he : e.isContent = true) :
    (s.step e).Accords r i := by
  have hflat : e.Flat ∧ e.isElement = false := by
    cases e with
    | text content => exact ⟨⟨rfl, rfl⟩, rfl⟩
    | cdata content => exact ⟨⟨rfl, rfl⟩, rfl⟩
    | _ => cases he
  rw [step_content s he]
  cases hreceiver : s.receiver with
  | none =>
      refine ⟨h.succ_of_silent hi hflat.1 hflat.2 (Or.inl hreceiver), ?_⟩
      intro v hv
      obtain ⟨j, f, -, hplace, -⟩ := (settles_at_content_iff hi he).1 hv
      have := h.receiver_eq_some_iff.2 ⟨j, hplace⟩
      rw [hreceiver] at this
      cases this
  | some f =>
      obtain ⟨j, hplace⟩ := h.receiver_eq_some_iff.1 hreceiver
      cases hread : readText e with
      | ok added =>
          have hadded : textOf e = added := by
            simp [textOf, hread, Except.toOption]
          refine ⟨h.succ_of_text hi hflat.1 hflat.2 hreceiver hadded, ?_⟩
          intro v hv
          obtain ⟨-, -, fault, -, hfault, -⟩ := (settles_at_content_iff hi he).1 hv
          rw [hread] at hfault
          cases hfault
      | error fault =>
          intro v
          rw [settles_at_content_iff hi he, hread]
          constructor
          · rintro ⟨-, -, fault', -, hfault, rfl⟩
            cases hfault
            rfl
          · rintro rfl
            exact ⟨j, f, fault, hplace, rfl, rfl⟩

/-- The end of the child of a field: the field's number is put in, or refused. -/
theorem accords_stop_of_child
    {name : Bytes}
    (hi : r.events[i]? = some (.stop name))
    (htwo : s.depth = 2) :
    (s.step (.stop name)).Accords r i := by
  have hnext := depthAt_succ_of_closes hi rfl
  have hdepth := h.depth
  obtain ⟨j, child, hchild, hfield, hscratch⟩ := h.inside (by omega)
  have hopen := h.rootOpen (by omega)
  have hroot :
      s.rootSeen = true ↔ ∃ e ∈ r.events.take (i + 1), e.isElement = true := by
    rw [h.rootSeen, exists_isElement_take_succ hi]
    simp [Event.isElement]
  have hplace : ∀ k f,
      DirectlyIn r.events k i (.number f) ↔ k = j ∧ s.field = some (.number f) := by
    intro k f
    constructor
    · rintro ⟨-, name', hchild', hname'⟩
      obtain ⟨rfl, rfl⟩ := childAt_unique hchild' hchild
      exact ⟨rfl, hfield.trans hname'⟩
    · rintro ⟨rfl, hf⟩
      exact ⟨hdepth ▸ htwo, child, hchild, hfield ▸ hf⟩
  simp only [State.step, State.closeElement, if_pos htwo, State.closeField_eq hscratch]
  cases hfinish : finishField s.message s.field (contentOf r.events j i) with
  | error e =>
      obtain ⟨f, hf, hgiven, hfault, rfl⟩ := finishField_eq_error_iff.1 hfinish
      intro v
      rw [settles_at_stop_iff hi]
      constructor
      · rintro (⟨hone, -⟩ | ⟨k, g, hk, -, -, rfl⟩)
        · omega
        · obtain ⟨rfl, hg⟩ := (hplace k g).1 hk
          rw [hf] at hg
          cases hg
          rfl
      · rintro rfl
        exact Or.inr ⟨j, f, (hplace j f).2 ⟨rfl, hf⟩, hgiven, hfault, rfl⟩
  | ok m =>
      simp only [htwo]
      rw [if_neg (by simp)]
      refine ⟨⟨?_, hroot, fun _ => hopen, fun _ => ⟨rfl, rfl⟩, ?_⟩, ?_⟩
      · simp only
        omega
      · intro hinside
        simp only at hinside
        omega
      · intro v hv
        rcases (settles_at_stop_iff hi).1 hv with ⟨hone, -⟩ | ⟨k, g, hk, hgiven, hfault, -⟩
        · omega
        · obtain ⟨rfl, hg⟩ := (hplace k g).1 hk
          have hrefused :
              finishField s.message s.field (contentOf r.events k i) =
                .error (.invalidNumber g (String.ofList (contentOf r.events k i))) :=
            finishField_eq_error_iff.2 ⟨g, hg, hgiven, hfault, rfl⟩
          rw [hfinish] at hrefused
          cases hrefused

theorem accords_stop
    {name : Bytes}
    (hbalanced : Balanced r.events)
    (hi : r.events[i]? = some (.stop name)) :
    (s.step (.stop name)).Accords r i := by
  have hnext := depthAt_succ_of_closes hi rfl
  have hdepth := h.depth
  have hpos := depthAt_pos_of_closes hbalanced hi rfl
  by_cases htwo : s.depth = 2
  · exact accords_stop_of_child h hi htwo
  have hopen := h.rootOpen (by omega)
  have hroot :
      s.rootSeen = true ↔ ∃ e ∈ r.events.take (i + 1), e.isElement = true := by
    rw [h.rootSeen, exists_isElement_take_succ hi]
    simp [Event.isElement]
  simp only [State.step, State.closeElement, if_neg htwo]
  by_cases hone : s.depth = 1
  · rw [if_pos ⟨by omega, hopen⟩]
    intro v
    rw [settles_at_stop_iff hi]
    constructor
    · rintro (⟨-, rfl⟩ | ⟨j, f, ⟨hplace, -⟩, -⟩)
      · rfl
      · omega
    · rintro rfl
      exact Or.inl ⟨by omega, rfl⟩
  · rw [if_neg fun hroot => by omega]
    refine ⟨⟨?_, hroot, fun _ => hopen, ?_, ?_⟩, ?_⟩
    · simp only
      omega
    · intro hlt
      simp only at hlt
      omega
    · exact fun _ => h.inside_succ hi rfl (by omega) (by omega)
    · intro v hv
      rcases (settles_at_stop_iff hi).1 hv with ⟨hroot, -⟩ | ⟨j, f, ⟨hplace, -⟩, -⟩
      · omega
      · omega

/-- One event, decisive or not: the decoder does what the position asks for. -/
theorem step_tracks
    {e : Event}
    (hbalanced : Balanced r.events)
    (hi : r.events[i]? = some e) :
    (s.step e).Accords r i := by
  cases e with
  | start name => exact accords_start h hbalanced hi
  | empty name => exact accords_empty h hi
  | stop name => exact accords_stop h hbalanced hi
  | text content => exact accords_content h hi rfl
  | cdata content => exact accords_content h hi rfl
  | comment =>
      exact ⟨h.succ_of_silent hi ⟨rfl, rfl⟩ rfl (Or.inr rfl),
        fun _ => not_settles_at_mute hi (by simp)⟩
  | instruction =>
      exact ⟨h.succ_of_silent hi ⟨rfl, rfl⟩ rfl (Or.inr rfl),
        fun _ => not_settles_at_mute hi (by simp)⟩
  | doctype =>
      exact ⟨h.succ_of_silent hi ⟨rfl, rfl⟩ rfl (Or.inr rfl),
        fun _ => not_settles_at_mute hi (by simp)⟩

end Step

section Runs

variable {r : Reading}

/-- Behind the last event, the verdict is that of the end. -/
theorem settles_at_end_iff
    {s : State}
    {v : Option Error}
    (h : Tracks r.events r.events.length s) :
    Settles r r.events.length v ↔ v = (s.finish r.ending).fault := by
  have hover : r.events[r.events.length]? = none := List.getElem?_eq_none (Nat.le_refl _)
  have hseen : s.rootSeen = true ↔ ∃ e ∈ r.events, e.isElement = true := by
    rw [h.rootSeen, List.take_length]
  have hdepth := h.depth
  constructor
  · intro hv
    cases hv with
    | malformed ending =>
        rw [ending]
        rfl
    | truncated ending inside =>
        rw [ending, State.finish, if_pos (by omega)]
    | missingRoot ending outside noElement =>
        have hnot : ¬ s.rootSeen = true := by
          rw [hseen]
          rintro ⟨e, he, helement⟩
          rw [noElement e he] at helement
          cases helement
        rw [ending, State.finish, if_neg (by omega), if_neg hnot]
    | ended ending outside element =>
        rw [ending, State.finish, if_neg (by omega), if_pos (hseen.2 element)]
    | _ => simp_all
  · rintro rfl
    cases hending : r.ending with
    | malformed e => exact .malformed hending
    | finished =>
        rw [State.finish]
        by_cases hinside : 0 < s.depth
        · rw [if_pos hinside]
          exact .truncated hending (by omega)
        · rw [if_neg hinside]
          by_cases hroot : s.rootSeen = true
          · rw [if_pos hroot]
            exact .ended hending (by omega) (hseen.1 hroot)
          · rw [if_neg hroot]
            refine .missingRoot hending (by omega) ?_
            intro e he
            rw [← Bool.not_eq_true]
            exact fun helement => hroot (hseen.2 ⟨e, he, helement⟩)

/-- A run from a position on ends at the first decisive position from there on. -/
theorem run_settles
    {i : Nat}
    {s : State}
    (hbalanced : Balanced r.events)
    (h : Tracks r.events i s)
    (hi : i ≤ r.events.length) :
    ∃ k, (∀ j, i ≤ j → j < k → ∀ v, ¬ Settles r j v) ∧
      i ≤ k ∧
      ∀ v, Settles r k v ↔ v = (s.run (r.events.drop i) r.ending).fault := by
  generalize hn : r.events.length - i = n
  induction n generalizing i s with
  | zero =>
      obtain rfl : i = r.events.length := by omega
      refine ⟨r.events.length, fun j hij hjk => by omega, Nat.le_refl _, ?_⟩
      intro v
      rw [List.drop_length]
      exact settles_at_end_iff h
  | succ n ih =>
      have hlt : i < r.events.length := by omega
      have hstep := step_tracks h hbalanced (List.getElem?_eq_getElem hlt)
      rw [List.drop_eq_getElem_cons hlt]
      cases hp : s.step r.events[i] with
      | finished o =>
          rw [hp] at hstep
          refine ⟨i, fun j hij hji => by omega, Nat.le_refl _, ?_⟩
          simp only [State.run, hp]
          exact hstep
      | reading t =>
          rw [hp] at hstep
          obtain ⟨htracks, hquiet⟩ := hstep
          obtain ⟨k, hfirst, hik, hk⟩ := ih htracks (by omega) (by omega)
          refine ⟨k, ?_, by omega, ?_⟩
          · intro j hij hjk
            rcases Nat.lt_or_eq_of_le hij with hlt | rfl
            · exact hfirst j hlt hjk
            · exact hquiet
          · simpa only [State.run, hp] using hk

/-- An event that leaves the state as it is may as well not stand there. -/
theorem run_eraseIdx
    {i k : Nat}
    {s : State}
    {e : Event}
    (hbalanced : Balanced r.events)
    (h : Tracks r.events i s)
    (hik : i ≤ k)
    (hk : r.events[k]? = some e)
    (hidle : ∀ t, Tracks r.events k t → t.step e = .reading t) :
    s.run ((r.events.drop i).eraseIdx (k - i)) r.ending =
      s.run (r.events.drop i) r.ending := by
  have hlength : k < r.events.length := (List.getElem?_eq_some_iff.1 hk).1
  generalize hn : k - i = n
  induction n generalizing i s with
  | zero =>
      obtain rfl : i = k := by omega
      have he : r.events[i] = e := (List.getElem?_eq_some_iff.1 hk).2
      rw [List.drop_eq_getElem_cons hlength, List.eraseIdx_cons_zero, he]
      simp only [State.run, hidle s h]
  | succ n ih =>
      have hlt : i < r.events.length := by omega
      have hstep := step_tracks h hbalanced (List.getElem?_eq_getElem hlt)
      rw [List.drop_eq_getElem_cons hlt, List.eraseIdx_cons_succ]
      cases hp : s.step r.events[i] with
      | finished o => simp only [State.run, hp]
      | reading t =>
          rw [hp] at hstep
          simp only [State.run, hp]
          exact ih hstep.1 (by omega) (by omega)

end Runs

theorem balanced_ofBytes (bytes : Bytes) :
    Balanced (Reading.ofBytes bytes).events := by
  intro i
  have := Markup.Reader.closes_le_opens (Markup.Reader.ofBytes bytes) i
  rw [Markup.Reader.opened_ofBytes] at this
  exact this

/-- **What settles a push.**  The first position that is decisive settles whether a push is accepted
and with what fault it is refused.  Character data and CDATA sections that do not stand directly in
a field are never decisive, whatever they hold, and may as well not stand there. -/
theorem decode_settled
    (target : Message)
    (bytes : Bytes) :
    let r := Reading.ofBytes bytes
    (∃ i, (∀ j < i, ∀ v, ¬ Settles r j v) ∧
      ∀ v, Settles r i v ↔ v = (decode target bytes).fault) ∧
    ∀ k e, r.events[k]? = some e →
      e.isContent = true →
      (∀ j f, ¬ DirectlyIn r.events j k f) →
      (∀ v, ¬ Settles r k v) ∧
        ofReading target ⟨r.events.eraseIdx k, r.ending⟩ = decode target bytes := by
  intro r
  have hbalanced : Balanced r.events := balanced_ofBytes bytes
  have hstart := tracks_start r.events target.reset
  constructor
  · obtain ⟨i, hfirst, -, hi⟩ := run_settles hbalanced hstart (Nat.zero_le _)
    refine ⟨i, fun j hj => hfirst j (Nat.zero_le _) hj, ?_⟩
    exact hi
  · intro k e hk he hplace
    constructor
    · intro v hv
      obtain ⟨j, f, -, hin, -⟩ := (settles_at_content_iff hk he).1 hv
      exact hplace j f hin
    · refine run_eraseIdx hbalanced hstart (Nat.zero_le _) hk ?_
      intro t ht
      rw [step_content t he]
      cases hreceiver : t.receiver with
      | none => rfl
      | some f =>
          obtain ⟨j, hin⟩ := ht.receiver_eq_some_iff.1 hreceiver
          exact absurd hin (hplace j f)

/-- A faulty reference before the root is passed over, and a number that is none settles. -/
theorem decode_settled_by_number :
    let bytes := Utf8.ofString "&a;<xml><Scale>1<i/>x</Scale></xml>"
    let r := Reading.ofBytes bytes
    (r.events[0]? = some (.text (Utf8.ofString "&a;")) ∧
      (Event.text (Utf8.ofString "&a;")).isContent = true ∧
      ∀ j f, ¬ DirectlyIn r.events j 0 f) ∧
    (∀ v, ¬ Settles r 0 v) ∧
    ∃ i, Settles r i (some (.invalidNumber (.int32 .scale) "1x")) := by
  have hfirst :
      (Reading.ofBytes (Utf8.ofString "&a;<xml><Scale>1<i/>x</Scale></xml>")).events[0]? =
        some (.text (Utf8.ofString "&a;")) := by
    decide +kernel
  have hfault :
      (decode .blank (Utf8.ofString "&a;<xml><Scale>1<i/>x</Scale></xml>")).fault =
        some (.invalidNumber (.int32 .scale) "1x") := by
    decide +kernel
  intro bytes r
  have hplace : ∀ j f, ¬ DirectlyIn r.events j 0 f := by
    rintro j f ⟨hdepth, -⟩
    rw [depthAt_zero] at hdepth
    cases hdepth
  obtain ⟨⟨i, -, hi⟩, hskipped⟩ := decode_settled .blank bytes
  refine ⟨⟨hfirst, rfl, hplace⟩, ?_, i, ?_⟩
  · exact (hskipped 0 _ hfirst rfl hplace).1
  · exact (hi _).2 hfault.symm

end Decoder
end PushGate
