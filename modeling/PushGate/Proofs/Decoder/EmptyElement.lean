import PushGate.Proofs.Decoder.Continuation
import PushGate.Proofs.Markup.Pieces

/-!
# Elements without content

An element without content is written as one tag or as two.  The decoder meets other events in the
two cases: a single one that clears a field, or a start tag that opens the field and an end tag that
puts nothing into it.  Inside the root both lead to the same state, at any depth and whatever has
been read before, and so the two ways of writing cannot be told apart.

Outside of the root they can: there the end tag stops the decoder.

**Results.**
* `exists_step_element`: the two events do what the one does.
* `readOn_emptyTagOf`: the two ways of writing, from a place inside the root on.
* `decode_emptyTagOf`: the same of whole documents.
-/

namespace PushGate

open Markup (Event Reader emptyTagOf startTagOf endTagOf IsTagName)

namespace Decoder
namespace State

section Elements

variable {s : State} {depth : Nat} {name after : Bytes} {opened : List Bytes}

/-- Inside the root, a start tag and its end tag do what the tag of an element without content
does. -/
theorem exists_step_element
    (h : s.Stands depth)
    (hinside : 0 < depth)
    (name : Bytes) :
    ∃ t u, s.step (.empty name) = .reading t ∧
      s.step (.start name) = .reading u ∧
      u.step (.stop name) = .reading t := by
  obtain ⟨m, d, rootSeen, field, scratch⟩ := s
  obtain rfl : d = depth := h.depth_eq
  by_cases hchild : d = 1
  · -- the element is a child of the root: its field is cleared, and then nothing is put into it
    subst hchild
    obtain ⟨rfl, rfl⟩ : field = none ∧ scratch = "" := h.outside (by decide)
    refine ⟨_, _, rfl, rfl, ?_⟩
    cases Field.ofTag (Markup.localName name) with
    | none => rfl
    | some f =>
        cases f with
        | text f => rfl
        | number f => rfl
  · have hzero : d ≠ 0 := Nat.ne_of_gt hinside
    refine ⟨⟨m, d, rootSeen, field, scratch⟩, ⟨m, d + 1, rootSeen, field, scratch⟩, ?_, ?_, ?_⟩
    · simp only [step, emptyElement, if_neg hzero, if_neg hchild]
    · simp only [step, openElement, if_neg hzero, if_neg hchild]
    · have hdeep : d + 1 ≠ 2 := by omega
      simp only [step, closeElement, if_neg hdeep, Nat.add_sub_cancel, hzero, false_and, if_false]

/-- An element without content, written as one tag and as two. -/
theorem readOn_emptyTagOf
    (h : s.Stands depth)
    (hinside : 0 < depth)
    (hname : IsTagName name) :
    s.readOn ⟨emptyTagOf name ++ after, opened⟩ =
      s.readOn ⟨startTagOf name ++ (endTagOf name ++ after), opened⟩ := by
  obtain ⟨t, u, hempty, hstart, hstop⟩ := exists_step_element h hinside name
  calc s.readOn ⟨emptyTagOf name ++ after, opened⟩
      = t.readOn ⟨after, opened⟩ := readOn_of_reading (Reader.next_emptyTagOf hname) hempty
    _ = u.readOn ⟨endTagOf name ++ after, name :: opened⟩ :=
        (readOn_of_reading (Reader.next_endTagOf hname) hstop).symm
    _ = s.readOn ⟨startTagOf name ++ (endTagOf name ++ after), opened⟩ :=
        (readOn_of_reading (Reader.next_startTagOf hname) hstart).symm

end Elements

end State

/-- **Elements without content.**  Where at least the root is open, an element without content that
is written as one tag may as well be written as two: the document is decoded alike, to the same
message or with the same fault, whatever stands before and after the element. -/
theorem decode_emptyTagOf
    {before after name : Bytes}
    {es : List Event}
    {opened : List Bytes}
    (target : Message)
    (hname : IsTagName name)
    (hplace : (Reader.ofBytes (before ++ (emptyTagOf name ++ after))).Passes es
      ⟨emptyTagOf name ++ after, opened⟩)
    (hinside : opened ≠ []) :
    decode target (before ++ (emptyTagOf name ++ after)) =
      decode target (before ++ (startTagOf name ++ (endTagOf name ++ after))) := by
  have hplace' :
      (Reader.ofBytes (before ++ (startTagOf name ++ (endTagOf name ++ after)))).Passes es
        ⟨startTagOf name ++ (endTagOf name ++ after), opened⟩ :=
    Reader.passes_ofBytes_replace hplace (fun _ _ _ => Or.inl (List.cons_ne_nil _ _)) rfl
  refine decode_congr_of_passes target hplace hplace' fun s hs => ?_
  exact State.readOn_emptyTagOf hs (List.length_pos_iff.2 hinside) hname

/-- A known tag inside a number that has been read by half, before a repeat that clears the number. -/
theorem decode_emptyTagOf_inNumber :
    let before := Utf8.ofString "<xml><Scale>1"
    let name := Utf8.ofString "Label"
    let after := Utf8.ofString "2</Scale><Scale/></xml>"
    let opened := [Utf8.ofString "Scale", Utf8.ofString "xml"]
    IsTagName name ∧
      (∃ es, (Reader.ofBytes (before ++ (emptyTagOf name ++ after))).Passes es
        ⟨emptyTagOf name ++ after, opened⟩) ∧
      opened ≠ [] ∧
      decode .blank (before ++ (emptyTagOf name ++ after)) =
        decode .blank (before ++ (startTagOf name ++ (endTagOf name ++ after))) := by
  have hname : IsTagName (Utf8.ofString "Label") := ⟨by decide +kernel, by decide +kernel⟩
  have hplace :
      (Reader.ofBytes (Utf8.ofString "<xml><Scale>1" ++
        (emptyTagOf (Utf8.ofString "Label") ++ Utf8.ofString "2</Scale><Scale/></xml>"))).Passes
        [.start (Utf8.ofString "xml"), .start (Utf8.ofString "Scale"), .text (Utf8.ofString "1")]
        ⟨emptyTagOf (Utf8.ofString "Label") ++ Utf8.ofString "2</Scale><Scale/></xml>",
          [Utf8.ofString "Scale", Utf8.ofString "xml"]⟩ := by
    decide +kernel
  have hinside := List.cons_ne_nil (Utf8.ofString "Scale") [Utf8.ofString "xml"]
  exact ⟨hname, ⟨_, hplace⟩, hinside, decode_emptyTagOf .blank hname hplace hinside⟩

end Decoder
end PushGate
