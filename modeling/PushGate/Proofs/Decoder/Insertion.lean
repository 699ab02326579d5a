import PushGate.Proofs.Decoder.EmptyElement

/-!
# Markup that is ignored

Comments and instructions count for nothing wherever they stand, elements of other names count for
nothing among the children of the root, and no element counts for anything deeper inside.  So they
may as well not be there: a document is decoded as before if such a piece of markup is put in between
two of its events, and that is so of a faulty document too.

Inside an element that is ignored the decoder is deaf: it counts the open elements and takes in
nothing, be it character data with a faulty reference or a field's tag.

Two things stand against this.  An end tag that lacks its `>` is read at the end of the input, but
what is put in behind it comes to stand inside the tag.  And the reader ends an instruction at its
first `>`, so one that has another `>` in it is a fault.

**Results.**
* `step_overlooked`: the tags of an element that is ignored.
* `Deaf.run_wellNested`: nothing is taken in where nothing is heard.
* `run_element`: an element that is ignored, as events.
* `Ignored.exists_passes`: what is ignored, as bytes.
* `decode_insert`: what is ignored may as well not be there.
* `decode_insert_instruction`: an instruction that has another `>` in it.
* `decode_insert_unread`: the two things that stand against this.
-/

namespace PushGate

open Markup (Event Ending Reader WellNested IsElement commentOf commentEnd instructionOf
  instructionEnd)

namespace Decoder

/-- An element of such a name is ignored where `depth` elements are open. -/
inductive Overlooked : Nat → Bytes → Prop
  | unknownChild
      {name : Bytes}
      (unknown : Field.ofTag (Markup.localName name) = none) :
      Overlooked 1 name
  | deeper
      {depth : Nat} {name : Bytes}
      (inside : 2 ≤ depth) :
      Overlooked depth name

/-- Markup that is ignored where `depth` elements are open. -/
inductive Ignored (depth : Nat) : Bytes → Prop
  | comment
      {content : Bytes}
      (within : ¬ commentEnd <:+: content) :
      Ignored depth (commentOf content)
  | instruction
      {content : Bytes}
      (nonempty : content ≠ [])
      (within : Markup.closing ∉ content) :
      Ignored depth (instructionOf content)
  | element
      {name bytes : Bytes} {es : List Event}
      (spelled : Reader.Spells bytes es)
      (element : IsElement name es)
      (overlooked : Overlooked depth name) :
      Ignored depth bytes

/-- What has been read ends with an end tag or an instruction that lacks its `>`. -/
def EndsUnclosed (bytes : Bytes) (es : List Event) : Prop :=
  bytes.getLast? ≠ some Markup.closing ∧ ∃ e, es.getLast? = some e ∧ e.lenient = true

namespace State

/-- The decoder is inside an element that it ignores. -/
structure Deaf (s : State) : Prop where
  inside : 2 ≤ s.depth
  unheard : s.depth = 2 → s.field = none

section Silence

variable {s t : State} {es later : List Event} {ending : Ending} {e : Event} {name : Bytes}
  {depth : Nat}

theorem run_reading
    (h : s.step e = .reading t) :
    s.run (e :: es) ending = t.run es ending := by
  simp only [run, h]

theorem Deaf.step_flat
    (h : s.Deaf)
    (he : e.Flat) :
    s.step e = .reading s := by
  have hinside := h.inside
  have hreceiver : s.receiver = none := by
    rw [receiver]
    split
    · exact h.unheard (by assumption)
    · rfl
  cases e with
  | start name => exact absurd he.1 (by simp [Event.opens])
  | stop name => exact absurd he.2 (by simp [Event.closes])
  | empty name =>
      simp only [step, emptyElement]
      rw [if_neg (by omega), if_neg (by omega)]
  | text content => simp only [step, characters, hreceiver]
  | cdata content => simp only [step, cdataSection, hreceiver]
  | _ => rfl

theorem Deaf.stands
    (h : s.Deaf) :
    s.Stands s.depth :=
  ⟨rfl, fun hlt => absurd h.inside (Nat.not_le_of_lt hlt)⟩

/-- The tags of an element that is ignored: between them the decoder is deaf, and behind them it is
where it was. -/
theorem step_overlooked
    (h : s.Stands depth)
    (hname : Overlooked depth name) :
    s.step (.empty name) = .reading s ∧
      ∃ u, s.step (.start name) = .reading u ∧ u.Deaf ∧ u.step (.stop name) = .reading s := by
  have hdepth := h.depth_eq
  have hempty : s.step (.empty name) = .reading s := by
    simp only [step, emptyElement]
    cases hname with
    | unknownChild unknown =>
        rw [if_neg (by omega), if_pos hdepth, unknown]
        rfl
    | deeper inside => rw [if_neg (by omega), if_neg (by omega)]
  have hdeaf : ∀ u, s.step (.start name) = .reading u → u.Deaf := by
    intro u hu
    simp only [step, openElement] at hu
    cases hname with
    | unknownChild unknown =>
        rw [if_neg (by omega), if_pos hdepth, unknown] at hu
        cases hu
        exact ⟨Nat.succ_le_succ (Nat.le_of_eq hdepth.symm), fun _ => rfl⟩
    | deeper inside =>
        rw [if_neg (by omega), if_neg (by omega)] at hu
        cases hu
        constructor
        · simp only
          omega
        · intro htwo
          simp only at htwo
          omega
  have hinside : 0 < depth := by
    cases hname with
    | unknownChild unknown => exact Nat.zero_lt_one
    | deeper inside => omega
  obtain ⟨t, u, hempty', hstart, hstop⟩ := exists_step_element h hinside name
  obtain rfl : s = t := by
    rw [hempty] at hempty'
    exact Progress.reading.inj hempty'
  exact ⟨hempty, u, hstart, hdeaf u hstart, hstop⟩

/-- Where nothing is heard, nothing is taken in of elements that are closed again. -/
theorem Deaf.run_wellNested
    (hes : WellNested es)
    (h : s.Deaf) :
    s.run (es ++ later) ending = s.run later ending := by
  induction hes generalizing s later with
  | nil => rfl
  | flat flat _ ih =>
      rw [List.cons_append, run_reading (h.step_flat flat)]
      exact ih h
  | @element name content outer _ _ ih ih' =>
      obtain ⟨-, u, hstart, hdeaf, hstop⟩ := step_overlooked h.stands (.deeper h.inside)
      rw [List.cons_append, run_reading hstart, List.append_assoc, ih hdeaf]
      rw [List.cons_append, run_reading hstop]
      exact ih' h

/-- Nothing is taken in of an element that is ignored. -/
theorem run_element
    (h : s.Stands depth)
    (hes : IsElement name es)
    (hname : Overlooked depth name) :
    s.run (es ++ later) ending = s.run later ending := by
  obtain ⟨hempty, u, hstart, hdeaf, hstop⟩ := step_overlooked h hname
  cases hes with
  | empty => exact run_reading hempty
  | tags inner =>
      rw [List.cons_append, run_reading hstart, List.append_assoc, hdeaf.run_wellNested inner]
      exact run_reading hstop

end Silence
end State

/-- What is ignored is read as events that leave the decoder as it was, wherever it stands. -/
theorem Ignored.exists_passes
    {depth : Nat}
    {bytes : Bytes}
    (h : Ignored depth bytes) :
    bytes.head? = some Markup.opening ∧
      ∃ es, (∀ more opened, Reader.Passes ⟨bytes ++ more, opened⟩ es ⟨more, opened⟩) ∧
        ∀ s : State, s.Stands depth → ∀ later ending,
          s.run (es ++ later) ending = s.run later ending := by
  cases h with
  | comment within =>
      refine ⟨rfl, [.comment], ?_, fun s _ later ending => State.run_reading rfl⟩
      intro more opened
      exact .event (Reader.next_commentOf within) (.here _)
  | instruction nonempty within =>
      refine ⟨rfl, [.instruction], ?_, fun s _ later ending => State.run_reading rfl⟩
      intro more opened
      exact .event (Reader.next_instructionOf nonempty within) (.here _)
  | @element name bytes es spelled element overlooked =>
      refine ⟨spelled.head? element, es, ?_, fun s hs later ending => ?_⟩
      · intro more opened
        refine spelled.passes ?_ opened
        intro e hlast
        rcases element.getLast? with htag | htag
        · cases hlast.symm.trans htag
          trivial
        · cases hlast.symm.trans htag
          trivial
      · exact State.run_element hs element overlooked

section Documents

variable {before inset after content : Bytes} {es : List Event} {opened : List Bytes}

/-- A place in a document stays one if markup is put in there. -/
theorem passes_insert
    (hplace : (Reader.ofBytes (before ++ after)).Passes es ⟨after, opened⟩)
    (hclosed : after = [] → ¬ EndsUnclosed before es)
    (hhead : inset.head? = some Markup.opening) :
    (Reader.ofBytes (before ++ (inset ++ after))).Passes es ⟨inset ++ after, opened⟩ := by
  refine Reader.passes_ofBytes_replace hplace ?_ ?_
  · intro e hlast hlenient
    by_cases hend : after = []
    · right
      by_contra hunclosed
      exact hclosed hend ⟨hunclosed, e, hlast, hlenient⟩
    · exact Or.inl hend
  · rw [List.head?_append, hhead]
    rfl

/-- **Markup that is ignored.**  A comment or an instruction that is put in between two events of a
document, an unknown element among the children of the root, and any element deeper inside, leave
what is decoded as it was, with the same message or the same fault.  An instruction is meant that has
no `>` but at its end; and at the end of the document nothing can be put in behind an end tag or an
instruction that lacks its `>`. -/
theorem decode_insert
    (target : Message)
    (hplace : (Reader.ofBytes (before ++ after)).Passes es ⟨after, opened⟩)
    (hclosed : after = [] → ¬ EndsUnclosed before es)
    (hignored : Ignored opened.length inset) :
    decode target (before ++ (inset ++ after)) = decode target (before ++ after) := by
  obtain ⟨hhead, es', hpasses, hsilent⟩ := hignored.exists_passes
  have hplace' := passes_insert hplace hclosed hhead
  refine decode_congr_of_passes target hplace' hplace fun s hs => ?_
  rw [State.readOn_of_passes (hpasses after opened)]
  exact hsilent s hs _ _

/-- Inside the content of a field: an element with the field's own tag in it, a faulty reference, and
a CDATA section that is not UTF-8. -/
theorem decode_insert_inContent :
    let before := Utf8.ofString "<xml><Content>a"
    let inset := Utf8.ofString "<x><Content>&b;</Content><![CDATA[" ++ 0xFF :: Utf8.ofString "]]></x>"
    let after := Utf8.ofString "<![CDATA[c]]></Content></xml>"
    let es := [.start (Utf8.ofString "xml"), .start (Utf8.ofString "Content"),
      .text (Utf8.ofString "a")]
    let opened := [Utf8.ofString "Content", Utf8.ofString "xml"]
    (Reader.ofBytes (before ++ after)).Passes es ⟨after, opened⟩ ∧
      (after = [] → ¬ EndsUnclosed before es) ∧
      Ignored opened.length inset ∧
      decode .blank (before ++ (inset ++ after)) = decode .blank (before ++ after) := by
  have hplace :
      (Reader.ofBytes
        (Utf8.ofString "<xml><Content>a" ++ Utf8.ofString "<![CDATA[c]]></Content></xml>")).Passes
        [.start (Utf8.ofString "xml"), .start (Utf8.ofString "Content"), .text (Utf8.ofString "a")]
        ⟨Utf8.ofString "<![CDATA[c]]></Content></xml>",
          [Utf8.ofString "Content", Utf8.ofString "xml"]⟩ := by
    decide +kernel
  have hclosed :
      Utf8.ofString "<![CDATA[c]]></Content></xml>" = [] →
        ¬ EndsUnclosed (Utf8.ofString "<xml><Content>a")
          [.start (Utf8.ofString "xml"), .start (Utf8.ofString "Content"),
            .text (Utf8.ofString "a")] :=
    fun hnil => absurd hnil (by decide)
  have hspelled :
      Reader.Spells
        (Utf8.ofString "<x><Content>&b;</Content><![CDATA[" ++ 0xFF :: Utf8.ofString "]]></x>")
        (.start (Utf8.ofString "x") ::
          ([.start (Utf8.ofString "Content"), .text (Utf8.ofString "&b;"),
            .stop (Utf8.ofString "Content"), .cdata [0xFF]] ++ [.stop (Utf8.ofString "x")])) :=
    ⟨by decide, by decide +kernel⟩
  have hnested :
      WellNested [.start (Utf8.ofString "Content"), .text (Utf8.ofString "&b;"),
        .stop (Utf8.ofString "Content"), .cdata [0xFF]] :=
    .element (.flat ⟨rfl, rfl⟩ .nil) (.flat ⟨rfl, rfl⟩ .nil)
  have hignored := Ignored.element hspelled (.tags hnested) (.deeper (Nat.le_refl 2))
  exact ⟨hplace, hclosed, hignored, decode_insert .blank hplace hclosed hignored⟩

/-- An instruction that has another `>` in it ends the document where it is put in, with a fault. -/
theorem decode_insert_instruction
    (target : Message)
    (hplace : (Reader.ofBytes (before ++ after)).Passes es ⟨after, opened⟩)
    (hclosed : after = [] → ¬ EndsUnclosed before es)
    (hclosing : Markup.closing ∈ content)
    (hcontent : ¬ instructionEnd <:+: content) :
    decode target (before ++ (instructionOf content ++ after)) =
      ofReading target ⟨es, .malformed (.unexpectedEnd .instruction)⟩ := by
  have hhead : (instructionOf content).head? = some Markup.opening := rfl
  have hplace' := passes_insert hplace hclosed hhead
  have hread : Reader.read ⟨instructionOf content ++ after, opened⟩ =
      ⟨[], .malformed (.unexpectedEnd .instruction)⟩ := by
    rw [Reader.read_eq, Reader.next_instructionOf_of_mem hclosing hcontent]
  have hreading := hplace'.read_eq
  rw [hread, List.append_nil] at hreading
  exact congrArg (ofReading target) hreading

end Documents

/-- Put in behind an end tag that lacks its `>`, a comment comes to stand inside the tag; and an
instruction that has another `>` in it is a fault. -/
theorem decode_insert_unread :
    let unclosed := Utf8.ofString "<xml><a></a"
    let before := Utf8.ofString "<xml>"
    let content := Utf8.ofString "a b>c"
    let after := Utf8.ofString "</xml>"
    ((Reader.ofBytes unclosed).Passes
        [.start (Utf8.ofString "xml"), .start (Utf8.ofString "a"), .stop (Utf8.ofString "a")]
        ⟨[], [Utf8.ofString "xml"]⟩ ∧
      (decode .blank unclosed).fault = some .truncated ∧
      (decode .blank (unclosed ++ commentOf [])).fault =
        some (.malformed (.endMismatch (Utf8.ofString "a") (Utf8.ofString "a<!----")))) ∧
    ((Reader.ofBytes (before ++ after)).Passes [.start (Utf8.ofString "xml")]
        ⟨after, [Utf8.ofString "xml"]⟩ ∧
      ¬ instructionEnd <:+: content ∧
      (decode .blank (before ++ after)).fault = none ∧
      (decode .blank (before ++ (instructionOf content ++ after))).fault =
        some (.malformed (.unexpectedEnd .instruction))) := by
  refine ⟨⟨?_, ?_, ?_⟩, ?_, by decide, ?_, ?_⟩ <;>
  · decide +kernel

end Decoder
end PushGate
