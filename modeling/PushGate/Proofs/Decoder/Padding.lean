import PushGate.Proofs.Decoder.Hearing
import PushGate.Proofs.Decoder.Integer

/-!
# Blanks around numbers

A number is read without the blanks around it.  So blanks that are put around the content of a numeric
field make no difference, as long as there is something to put them around: a field in which nothing
stands is left at zero, and one in which nothing but blanks stands is refused.

**Results.**
* `parse?_surround`, `parse?_blank`: reading a number with blanks around it.
* `Enters.readOn_end_agrees`: the end tag does the same of texts that are read alike.
* `decode_padded`: documents with and without blanks around a number.
* `decode_padded_nothing`: blanks where nothing stands.
-/

namespace PushGate

open Markup (Event Reading Reader)
open Markup.Reference (Inert)
open Utf8 (encode)

namespace Decoder

/-- An outcome accepts exactly if another one does, and then it is the same. -/
def Outcome.Agrees (o o' : Outcome) : Prop :=
  (o.fault = none ↔ o'.fault = none) ∧ (o'.fault = none → o = o')

theorem Outcome.Agrees.refl (o : Outcome) : o.Agrees o :=
  ⟨Iff.rfl, fun _ => rfl⟩

theorem Outcome.agrees_of_faults
    {o o' : Outcome}
    (h : o.fault ≠ none)
    (h' : o'.fault ≠ none) :
    o.Agrees o' :=
  ⟨⟨fun hnone => absurd hnone h, fun hnone => absurd hnone h'⟩, fun hnone => absurd hnone h'⟩

section Blanks

variable {f : NumberField} {t before after : List Char}

theorem parse?_of_ne_nil
    (h : t ≠ []) :
    (Field.number f).parse? t = f.parse? t :=
  if_neg h

theorem parse?_congr
    {u : List Char}
    (h : Text.trim t = Text.trim u) :
    f.parse? t = f.parse? u := by
  rcases f with f | f | f
  · exact congrArg Decimal.int64? h
  · exact congrArg Decimal.int32? h
  · exact congrArg Binary64.ofText? h

/-- Blanks around a text are not read, if there is something to put them around. -/
theorem parse?_surround
    (hbefore : Push.IsBlank before)
    (hafter : Push.IsBlank after)
    (hgiven : t ≠ [] ∨ before ++ after = []) :
    (Field.number f).parse? (before ++ (t ++ after)) = (Field.number f).parse? t := by
  have htrim : Text.trim (before ++ (t ++ after)) = Text.trim t := by
    rw [← List.append_assoc, Text.trim_surround hbefore hafter]
  rcases hgiven with ht | hnone
  · have hsurround : before ++ (t ++ after) ≠ [] := by simp [ht]
    rw [parse?_of_ne_nil ht, parse?_of_ne_nil hsurround, parse?_congr htrim]
  · obtain ⟨rfl, rfl⟩ := List.append_eq_nil_iff.1 hnone
    rw [List.nil_append, List.append_nil]

/-- Blanks by themselves are no number. -/
theorem parse?_blank
    (h : Push.IsBlank t)
    (hgiven : t ≠ []) :
    (Field.number f).parse? t = none := by
  have htrim : Text.trim t = Text.trim [] := Text.trim_eq_nil_iff.2 h
  rw [parse?_of_ne_nil hgiven, parse?_congr htrim]
  rcases f with f | f | f <;> rfl

/-- No blank begins a tag or belongs to a reference. -/
theorem inert_of_isBlank
    (h : Push.IsBlank t) :
    Inert t := by
  intro c hc
  rw [Markup.Reference.isInner, Bool.and_eq_true, bne_iff_ne, bne_iff_ne]
  constructor
  · rintro rfl
    exact absurd (h '&' hc) (by decide)
  · rintro rfl
    exact absurd (h ';' hc) (by decide)

theorem noTag_of_isBlank
    (h : Push.IsBlank t) :
    '<' ∉ t :=
  fun hmem => absurd (h '<' hmem) (by decide)

end Blanks

namespace State

section Ends

variable {s : State} {f : NumberField} {m : Message} {t u before after : List Char}
  {rest : Bytes} {opened : List Bytes} {content : List Fragment}

/-- The end tag does the same of texts that are read alike. -/
theorem Enters.readOn_end_agrees
    (h : s.Enters f m)
    (hend : [Markup.opening, Markup.slash] <+: rest)
    (hparse : (Field.number f).parse? u = (Field.number f).parse? t) :
    ((s.gain u).readOn ⟨rest, opened⟩).Agrees ((s.gain t).readOn ⟨rest, opened⟩) := by
  rcases Reader.next_of_slash hend with ⟨e, hnext⟩ | ⟨name, r, hnext⟩
  · rw [readOn_of_fault hnext, readOn_of_fault hnext]
    exact Outcome.agrees_of_faults (Option.some_ne_none _) (Option.some_ne_none _)
  · have hstep := h.step_stop t name
    have hstep' := h.step_stop u name
    rw [hparse] at hstep'
    cases hvalue : (Field.number f).parse? t with
    | none =>
        rw [hvalue] at hstep hstep'
        rw [readOn_of_finished hnext hstep, readOn_of_finished hnext hstep']
        exact Outcome.agrees_of_faults (Option.some_ne_none _) (Option.some_ne_none _)
    | some value =>
        rw [hvalue] at hstep hstep'
        rw [readOn_of_reading hnext hstep, readOn_of_reading hnext hstep']
        exact .refl _

/-- If a document goes on soundly behind one text, the end tag has come, and it refuses another one that
cannot be read. -/
theorem Enters.readOn_end_refused
    (h : s.Enters f m)
    (hend : [Markup.opening, Markup.slash] <+: rest)
    (hsound : ((s.gain t).readOn ⟨rest, opened⟩).fault = none)
    (hparse : (Field.number f).parse? u = none) :
    ((s.gain u).readOn ⟨rest, opened⟩).fault = some (.invalidNumber f (String.ofList u)) := by
  rcases Reader.next_of_slash hend with ⟨e, hnext⟩ | ⟨name, r, hnext⟩
  · rw [readOn_of_fault hnext] at hsound
    cases hsound
  · have hstep := h.step_stop u name
    rw [hparse] at hstep
    rw [readOn_of_finished hnext hstep]

theorem head?_of_endTag
    (hend : [Markup.opening, Markup.slash] <+: rest) :
    rest.head? = some Markup.opening := by
  obtain ⟨more, rfl⟩ := hend
  rfl

/-- From its element's start tag to the end tag, content is heard. -/
theorem Hears.readOn_plain
    (h : s.Hears f)
    (hend : [Markup.opening, Markup.slash] <+: rest) :
    s.readOn ⟨written content ++ rest, opened⟩ =
      s.hear (heard [] content) fun t => t.readOn ⟨rest, opened⟩ :=
  h.readOn_written List.not_mem_nil (head?_of_endTag hend)

/-- Blanks around content are heard with it. -/
theorem Hears.readOn_padded
    (h : s.Hears f)
    (hbefore : Push.IsBlank before)
    (hafter : Push.IsBlank after)
    (hend : [Markup.opening, Markup.slash] <+: rest)
    (content : List Fragment)
    (opened : List Bytes) :
    ∃ padded, (∀ u, padded = .ok u ↔ ∃ t, heard [] content = .ok t ∧ u = before ++ (t ++ after)) ∧
      s.readOn ⟨encode before ++ (written content ++ (encode after ++ rest)), opened⟩ =
        s.hear padded fun t => t.readOn ⟨rest, opened⟩ := by
  let last := Fragment.ofText after (noTag_of_isBlank hafter)
  refine ⟨heard (encode before ++ []) (content ++ [last]), ?_, ?_⟩
  · exact fun u => heard_surround (inert_of_isBlank hbefore) (inert_of_isBlank hafter)
  · have hwritten : written content ++ (encode after ++ rest) =
        written (content ++ [last]) ++ rest := by
      simp [written, last, Fragment.ofText, Fragment.bytes]
    have hpending : Markup.opening ∉ encode before :=
      fun hmem => noTag_of_isBlank hbefore (Utf8.mem_of_mem_encode rfl hmem)
    rw [hwritten, List.append_nil]
    exact h.readOn_written hpending (head?_of_endTag hend)

/-- Blanks around content make no difference, if there is something to put them around. -/
theorem Enters.readOn_padded_agrees
    (h : s.Enters f m)
    (hbefore : Push.IsBlank before)
    (hafter : Push.IsBlank after)
    (hend : [Markup.opening, Markup.slash] <+: rest)
    (hgiven : direct content ≠ [] ∨ before ++ after = []) :
    (s.readOn ⟨encode before ++ (written content ++ (encode after ++ rest)), opened⟩).Agrees
      (s.readOn ⟨written content ++ rest, opened⟩) := by
  obtain ⟨padded, hpadded, hread⟩ := h.readOn_padded hbefore hafter hend content opened
  rw [hread, h.readOn_plain hend]
  cases hheard : heard [] content with
  | error e =>
      -- the two faults can differ, in the place that they name
      cases hcase : padded with
      | error e' => exact Outcome.agrees_of_faults (Option.some_ne_none _) (Option.some_ne_none _)
      | ok u =>
          obtain ⟨t, ht, -⟩ := (hpadded u).1 hcase
          rw [hheard] at ht
          cases ht
  | ok t =>
      rw [(hpadded _).2 ⟨t, hheard, rfl⟩]
      refine h.readOn_end_agrees hend (parse?_surround hbefore hafter ?_)
      refine hgiven.imp_left fun hdirect => ?_
      rintro rfl
      exact hdirect (heard_eq_nil_iff.1 hheard)

/-- Where nothing stands, blanks are refused. -/
theorem Enters.readOn_blank
    (h : s.Enters f m)
    (hbefore : Push.IsBlank before)
    (hafter : Push.IsBlank after)
    (hend : [Markup.opening, Markup.slash] <+: rest)
    (hempty : direct content = [])
    (hgiven : before ++ after ≠ [])
    (hsound : (s.readOn ⟨written content ++ rest, opened⟩).fault = none) :
    (s.readOn ⟨encode before ++ (written content ++ (encode after ++ rest)), opened⟩).fault =
      some (.invalidNumber f (String.ofList (before ++ after))) := by
  obtain ⟨padded, hpadded, hread⟩ := h.readOn_padded hbefore hafter hend content opened
  have hheard : heard [] content = .ok [] := heard_eq_nil_iff.2 hempty
  have hblank : Push.IsBlank (before ++ after) := by
    intro c hc
    exact (List.mem_append.1 hc).elim (hbefore c) (hafter c)
  rw [h.readOn_plain hend, hheard] at hsound
  rw [hread, (hpadded _).2 ⟨[], hheard, rfl⟩]
  exact h.readOn_end_refused hend hsound (parse?_blank hblank hgiven)

/-- The start tag of a child of the root that belongs to a numeric field. -/
theorem exists_enters
    {name tag : Bytes}
    (h : s.Stands 1)
    (htag : Reader.Passes ⟨tag, []⟩ [.start name] ⟨[], [name]⟩)
    (hfield : Field.ofTag (Markup.localName name) = some (.number f))
    (root : Bytes) :
    ∃ t : State, t.Enters f s.message ∧
      ∀ more, s.readOn ⟨tag ++ more, [root]⟩ = t.readOn ⟨more, [name, root]⟩ := by
  have hdepth := h.depth_eq
  obtain ⟨-, hscratch⟩ := h.outside Nat.one_lt_two
  let t : State :=
    { s with message := s.message.clear (.number f), depth := 2, field := some (.number f) }
  refine ⟨t, ⟨⟨rfl, rfl⟩, rfl, hscratch⟩, ?_⟩
  intro more
  have hstep : s.step (.start name) = .reading t := by
    rw [step, openElement, if_neg (by omega), if_pos hdepth, hfield, hdepth]
    rfl
  have hpasses : Reader.Passes ⟨tag ++ more, [root]⟩ [.start name] ⟨more, [name, root]⟩ := by
    refine (htag.replace (List.append_nil tag).symm ?_ ?_).frame [root]
    · intro e he hlenient
      cases he
      cases hlenient
    · intro e he
      cases he
      trivial
  cases hpasses with
  | event next later =>
      cases later
      exact readOn_of_reading next hstep

end Ends
end State

section Documents

variable {before tag after : Bytes} {content : List Fragment} {es : List Event}
  {name root : Bytes} {f : NumberField} {blanks blanks' : List Char}

/-- A decoder that nothing stops before comes to the place that its reader comes to. -/
theorem exists_stands_of_passes
    {bytes bytes' : Bytes}
    {r r' : Reader}
    (target : Message)
    (h : (Reader.ofBytes bytes).Passes es r)
    (h' : (Reader.ofBytes bytes').Passes es r')
    (hquiet : ∀ j < es.length, ∀ v, ¬ Settles (Reading.ofBytes bytes) j v) :
    ∃ s : State, s.Stands r.opened.length ∧
      decode target bytes = s.readOn r ∧
      decode target bytes' = s.readOn r' := by
  have hread := events_of_passes h
  obtain ⟨s, htracks, hrun⟩ := exists_state (balanced_ofBytes bytes)
    (tracks_start (Reading.ofBytes bytes).events .blank) (Nat.zero_le es.length)
    (by rw [hread, List.length_append]; exact Nat.le_add_right _ _)
    (fun j _ hj => hquiet j hj)
  rw [List.drop_zero, Nat.sub_zero, hread, List.take_left] at hrun
  have hstands : s.Stands r.opened.length := by
    rw [← depthAt_of_passes h]
    exact htracks.stands
  refine ⟨s, hstands, ?_, ?_⟩
  · rw [decode_eq_readOn, State.readOn_of_passes h, hrun]
    rfl
  · rw [decode_eq_readOn, State.readOn_of_passes h', hrun]
    rfl

/-- **Blanks around numbers.**  In an element of a numeric field, directly in the root, blanks are put
before and behind what stands there.  If something stands there, be it blanks itself, the document is
accepted exactly if it was before, and with the same message.  If nothing stands there, a document that
was accepted is refused when the decoder comes to this element, for the blanks as a number. -/
theorem decode_padded
    (target : Message)
    (hplace : (Reader.ofBytes (before ++ (tag ++ (written content ++ after)))).Passes es
      ⟨tag ++ (written content ++ after), [root]⟩)
    (htag : Reader.Passes ⟨tag, []⟩ [.start name] ⟨[], [name]⟩)
    (hfield : Field.ofTag (Markup.localName name) = some (.number f))
    (hend : [Markup.opening, Markup.slash] <+: after)
    (hblanks : Push.IsBlank blanks)
    (hblanks' : Push.IsBlank blanks') :
    let plain := before ++ (tag ++ (written content ++ after))
    let padded :=
      before ++ (tag ++ (encode blanks ++ (written content ++ (encode blanks' ++ after))))
    (direct content ≠ [] ∨ blanks ++ blanks' = [] →
      ((decode target padded).fault = none ↔ (decode target plain).fault = none) ∧
      ((decode target plain).fault = none →
        (decode target padded).message = (decode target plain).message)) ∧
    (direct content = [] →
      blanks ++ blanks' ≠ [] →
      (decode target plain).fault = none →
      (∀ j < es.length, ∀ v, ¬ Settles (Reading.ofBytes plain) j v) →
      (decode target padded).fault =
        some (.invalidNumber f (String.ofList (blanks ++ blanks')))) := by
  intro plain padded
  have hplace' : (Reader.ofBytes padded).Passes es
      ⟨tag ++ (encode blanks ++ (written content ++ (encode blanks' ++ after))), [root]⟩ := by
    obtain ⟨more, rfl⟩ : ∃ more, tag = Markup.opening :: more := by
      cases htag with
      | event next later => exact List.head?_eq_some_iff.1 (Reader.head?_of_next (by simp) next)
    exact Reader.passes_ofBytes_replace hplace (fun _ _ _ => Or.inl (List.cons_ne_nil _ _)) rfl
  constructor
  · intro hgiven
    have hagrees : (decode target padded).Agrees (decode target plain) := by
      refine decode_related_of_passes target Outcome.Agrees.refl hplace' hplace fun s hs => ?_
      obtain ⟨t, ht, hread⟩ := State.exists_enters hs htag hfield root
      rw [hread, hread]
      exact ht.readOn_padded_agrees hblanks hblanks' hend hgiven
    exact ⟨hagrees.1, fun hsound => congrArg Outcome.message (hagrees.2 hsound)⟩
  · intro hempty hgiven hsound hquiet
    obtain ⟨s, hs, hplain, hpadded⟩ := exists_stands_of_passes target hplace hplace' hquiet
    obtain ⟨t, ht, hread⟩ := State.exists_enters hs htag hfield root
    rw [hplain, hread] at hsound
    rw [hpadded, hread]
    exact ht.readOn_blank hblanks hblanks' hend hempty hgiven hsound

end Documents

/-- A number in pieces: a text, a comment, a CDATA section, and a reference. -/
def numberInPieces : List Fragment :=
  [.text (Utf8.ofString "-1") (by decide),
    .ignored (Markup.commentOf (Utf8.ofString "0")) (.comment (by decide)),
    .cdata (Utf8.ofString "<![CDATA[2]]>") (Utf8.ofString "2") ⟨by decide, by decide +kernel⟩,
    .text (Utf8.ofString "&#x33;") (by decide)]

/-- A number in pieces, with blanks before its text and behind its reference. -/
theorem decode_padded_inPieces :
    let before := Utf8.ofString "<xml>"
    let tag := Utf8.ofString "<MsgID n='/>'>"
    let after := Utf8.ofString "</MsgID></xml>"
    let blanks := ['\n', '\t']
    let blanks' := ['\u2003', '\r', '\n', ' ']
    let plain := before ++ (tag ++ (written numberInPieces ++ after))
    let padded :=
      before ++ (tag ++ (encode blanks ++ (written numberInPieces ++ (encode blanks' ++ after))))
    ((Reader.ofBytes plain).Passes [.start (Utf8.ofString "xml")]
        ⟨tag ++ (written numberInPieces ++ after), [Utf8.ofString "xml"]⟩ ∧
      Reader.Passes ⟨tag, []⟩ [.start (Utf8.ofString "MsgID")] ⟨[], [Utf8.ofString "MsgID"]⟩ ∧
      Field.ofTag (Markup.localName (Utf8.ofString "MsgID")) = some Field.msgId ∧
      [Markup.opening, Markup.slash] <+: after ∧
      Push.IsBlank blanks ∧
      Push.IsBlank blanks') ∧
    direct numberInPieces ≠ [] ∧
    (decode .blank plain).fault = none ∧
    (decode .blank padded).fault = none ∧
    (decode .blank padded).message.msgId = -123 := by
  have hplace :
      (Reader.ofBytes (Utf8.ofString "<xml>" ++ (Utf8.ofString "<MsgID n='/>'>" ++
        (written numberInPieces ++ Utf8.ofString "</MsgID></xml>")))).Passes
        [.start (Utf8.ofString "xml")]
        ⟨Utf8.ofString "<MsgID n='/>'>" ++
          (written numberInPieces ++ Utf8.ofString "</MsgID></xml>"), [Utf8.ofString "xml"]⟩ := by
    decide +kernel
  have htag :
      Reader.Passes ⟨Utf8.ofString "<MsgID n='/>'>", []⟩ [.start (Utf8.ofString "MsgID")]
        ⟨[], [Utf8.ofString "MsgID"]⟩ := by
    decide +kernel
  have hfield : Field.ofTag (Markup.localName (Utf8.ofString "MsgID")) = some Field.msgId := by
    decide +kernel
  have hend : [Markup.opening, Markup.slash] <+: Utf8.ofString "</MsgID></xml>" := by
    decide +kernel
  have hblanks : Push.IsBlank ['\n', '\t'] := List.all_eq_true.1 rfl
  have hblanks' : Push.IsBlank ['\u2003', '\r', '\n', ' '] := List.all_eq_true.1 rfl
  have hgiven : direct numberInPieces ≠ [] := by decide +kernel
  have hplain :
      decode .blank (Utf8.ofString "<xml>" ++ (Utf8.ofString "<MsgID n='/>'>" ++
        (written numberInPieces ++ Utf8.ofString "</MsgID></xml>"))) =
        ⟨Message.blank.setInt64 .msgId (-123), none⟩ := by
    decide +kernel
  obtain ⟨hsame, -⟩ := decode_padded .blank hplace htag hfield hend hblanks hblanks'
  obtain ⟨hverdict, hmessage⟩ := hsame (Or.inl hgiven)
  have hsound := congrArg Outcome.fault hplain
  refine ⟨⟨hplace, htag, hfield, hend, hblanks, hblanks'⟩, hgiven, hsound, hverdict.2 hsound, ?_⟩
  rw [hmessage hsound, hplain]
  rfl

/-- Where nothing stands, a blank makes an accepted document one that is refused. -/
theorem decode_padded_nothing :
    let before := Utf8.ofString "<xml>"
    let tag := Utf8.ofString "<Scale>"
    let after := Utf8.ofString "</Scale></xml>"
    let plain := before ++ (tag ++ (written [] ++ after))
    let padded := before ++ (tag ++ (encode [' '] ++ (written [] ++ (encode [] ++ after))))
    Push.IsBlank [' '] ∧
    (Reader.ofBytes plain).Passes [.start (Utf8.ofString "xml")]
      ⟨tag ++ (written [] ++ after), [Utf8.ofString "xml"]⟩ ∧
    decode .blank plain = ⟨.blank, none⟩ ∧
    (decode .blank padded).fault = some (.invalidNumber (.int32 .scale) " ") := by
  exact ⟨List.all_eq_true.1 rfl, by decide +kernel, by decide +kernel, by decide +kernel⟩

end Decoder
end PushGate
