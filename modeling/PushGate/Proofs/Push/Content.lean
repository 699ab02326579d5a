import PushGate.Proofs.Decoder.Loop
import PushGate.Proofs.Push.References

/-!
# Decoding written content

The decoder goes through the content of an element.  What it takes from there is one text, the
joined text of the pieces that stand directly in the element, and it takes this text for the field of
the element if that is a child of the root.  Texts that follow each other are one event to the
reader, so the induction over the content has a written text pending in front of it.

**Results.**
* `readOn_text`: a written text is gained by the field at its place.
* `readOn_writes`: so is the joined direct text of the content of an element.
-/

namespace PushGate

open Markup (Event Reader)
open Utf8 (encode)

namespace Message

theorem setText_setText
    (m : Message)
    (f : TextField)
    (first second : String) :
    (m.setText f first).setText f second = m.setText f second := by
  cases f <;> rfl

theorem setText_text
    (m : Message)
    (f : TextField) :
    m.setText f (m.text f) = m := by
  cases f <;> rfl

theorem text_setText_self
    (m : Message)
    (f : TextField)
    (value : String) :
    (m.setText f value).text f = value :=
  (text_setText m f f value).trans (if_pos rfl)

end Message

namespace Push

theorem WritesText.append
    {s t v w : List Char}
    (hs : WritesText s v)
    (ht : WritesText t w) :
    WritesText (s ++ t) (v ++ w) := by
  induction hs with
  | nil => exact ht
  | cons first rest ih =>
      rw [List.cons_append, List.append_assoc]
      exact .cons first ih

theorem WritesText.eq_nil
    {s : List Char}
    (h : WritesText s []) :
    s = [] := by
  generalize hv : ([] : List Char) = v at h
  cases h with
  | nil => rfl
  | cons first rest =>
      obtain ⟨hnil, -⟩ := List.append_eq_nil_iff.1 hv.symm
      cases first <;> cases hnil

theorem enclose_append (name inner rest : List Char) :
    enclose name inner ++ rest =
      '<' :: (name ++ '>' :: (inner ++ '<' :: '/' :: (name ++ '>' :: rest))) := by
  simp [enclose]

theorem direct_cons (p : Piece) (content : List Piece) :
    direct (p :: content) = p.own ++ direct content := rfl

end Push

namespace Decoder
namespace State

/-- Text that comes to a place is added to the field there, if there is one. -/
def gain (s : State) (text : List Char) : State :=
  match s.receiver with
  | some f => s.append f (String.ofList text)
  | none => s

section Gain

variable (s : State) (t u : List Char)

theorem append_append
    (f : Field)
    (first second : String) :
    (s.append f first).append f second = s.append f (first ++ second) := by
  cases f with
  | text f =>
      simp only [append, Message.setText_setText, Message.text_setText_self, String.append_assoc]
  | number f => simp only [append, String.append_assoc]

theorem receiver_append
    (f : Field)
    (added : String) :
    (s.append f added).receiver = s.receiver := by
  cases f <;> rfl

@[simp] theorem gain_depth : (s.gain t).depth = s.depth := by
  rw [gain]
  split
  · rename_i f _
    cases f <;> rfl
  · rfl

theorem gain_nil : s.gain [] = s := by
  rw [gain]
  split
  · rename_i f _
    cases f with
    | text f => simp [append, Message.setText_text]
    | number f => simp [append]
  · rfl

theorem gain_gain : (s.gain t).gain u = s.gain (t ++ u) := by
  cases hreceiver : s.receiver with
  | none => simp only [gain, hreceiver]
  | some f =>
      simp only [gain, hreceiver, receiver_append, append_append, String.ofList_append]

/-- Only directly in a child of the root is anything gained. -/
theorem gain_of_depth_ne (h : s.depth ≠ 2) : s.gain t = s := by
  have hnone : s.receiver = none := if_neg h
  rw [gain, hnone]

end Gain

section Content

variable {s : State} {t u v w : List Char} {opened : List Bytes}

theorem step_text (h : Push.WritesText t v) :
    s.step (.text (encode v)) = .reading (s.gain t) := by
  have hdata : Markup.characterData (encode v) = .ok t := by
    rw [Markup.characterData, Utf8.decode_encode]
    change (Markup.Reference.resolve v).mapError _ = _
    rw [Markup.Reference.resolve_writes h]
    rfl
  rw [step, characters, gain, hdata]
  cases s.receiver <;> rfl

theorem step_cdata :
    s.step (.cdata (encode t)) = .reading (s.gain t) := by
  rw [step, cdataSection, gain, Utf8.decode_encode]
  cases s.receiver <;> rfl

theorem readOn_text
    (h : Push.WritesText t v)
    (hmarkup : w.head? = some '<') :
    s.readOn ⟨encode (v ++ w), opened⟩ = (s.gain t).readOn ⟨encode w, opened⟩ := by
  obtain ⟨rest, rfl⟩ := List.head?_eq_some_iff.1 hmarkup
  by_cases hv : v = []
  · subst hv
    rw [h.eq_nil, gain_nil]
    rfl
  · exact readOn_of_reading
      (Reader.next_text hv (Markup.Reference.not_mem_writes h)) (step_text h)

/-- Inside a child of the root, a start tag leads one element deeper. -/
theorem step_start
    (name : Bytes)
    (h : 2 ≤ s.depth) :
    s.step (.start name) = .reading { s with depth := s.depth + 1 } := by
  rw [step, openElement, if_neg (by omega), if_neg (by omega)]

/-- Deeper than a child of the root, an end tag leads one element out. -/
theorem step_stop
    (name : Bytes)
    (h : 2 ≤ s.depth) :
    State.step { s with depth := s.depth + 1 } (.stop name) = .reading s := by
  rw [step, closeElement, if_neg (by simp only; omega)]
  simp only
  rw [if_neg (by omega), Nat.add_sub_cancel]

/-- From the content of an element the decoder gains the joined text directly in it. -/
theorem readOn_writes
    {content : List Push.Piece}
    (h : Push.Writes content w)
    (hpending : Push.WritesText t v)
    (hdepth : 2 ≤ s.depth)
    (rest : List Char) :
    s.readOn ⟨encode (v ++ (w ++ '<' :: rest)), opened⟩ =
      (s.gain (t ++ Push.direct content)).readOn ⟨encode ('<' :: rest), opened⟩ := by
  induction h generalizing t v s opened rest with
  | nil =>
      rw [Push.direct, List.flatMap_nil, List.append_nil]
      exact readOn_text hpending rfl
  | text first _ ih =>
      rw [Push.direct_cons, Push.Piece.own, List.append_assoc, ← List.append_assoc v,
        ← List.append_assoc t]
      exact ih (hpending.append first) hdepth rest
  | @cdata p content w noMark _ ih =>
      rw [List.append_assoc, readOn_text hpending rfl]
      rw [readOn_of_reading (Reader.next_cdata noMark) step_cdata]
      refine (ih .nil (by simpa using hdepth) rest).trans ?_
      rw [gain_gain, gain_gain]
      rfl
  | @comment p content w _ noClosing _ ih =>
      rw [List.append_assoc, readOn_text hpending rfl]
      rw [readOn_of_reading (Reader.next_comment noClosing) rfl]
      refine (ih .nil (by simpa using hdepth) rest).trans ?_
      rw [gain_gain]
      rfl
  | @element name inner v' content w isName _ _ ihInner ihRest =>
      have hgained : 2 ≤ (s.gain t).depth := by simpa using hdepth
      rw [List.append_assoc, readOn_text hpending rfl, Push.enclose_append]
      rw [readOn_of_reading (Reader.next_start isName) (step_start _ hgained)]
      refine (ihInner .nil (by simp only; omega) _).trans ?_
      rw [gain_of_depth_ne _ _ (by simp only; omega)]
      rw [readOn_of_reading (Reader.next_stop isName) (step_stop _ hgained)]
      refine (ihRest .nil hgained rest).trans ?_
      rw [gain_gain]
      rfl

end Content

end State
end Decoder
end PushGate
