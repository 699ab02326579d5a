import PushGate.Proofs.Decoder.Insertion
import PushGate.Proofs.Push.RoundTrip
import PushGate.Proofs.Markup.Resolution

/-!
# What is heard in a numeric field

In a child of the root stand texts and CDATA sections, and between them markup that is ignored.  Texts that
follow each other are one event to the reader, whose bytes are read as one; so a piece of text is pending
until something else comes.  From content that is sound the decoder hears one text (`heard`), which the end
tag reads as a number.

**Results.**
* `heard_surround`: what is heard of content with other texts around it.
* `heard_eq_nil_iff`: nothing is heard exactly where nothing stands.
* `Hears.readOn_written`: the decoder hears content and goes on behind it.
* `Enters.step_stop`: what the end tag does of what has been heard.
-/

namespace PushGate

open Markup (Event Ending Reading Reader)
open Markup.Reference (Inert)
open Utf8 (encode)

namespace Decoder

/-- A piece of what stands in a child of the root, by its bytes. -/
inductive Fragment where
  | text
      (bytes : Bytes)
      (noTag : Markup.opening ∉ bytes)
  | cdata
      (bytes content : Bytes)
      (spelled : Reader.Spells bytes [.cdata content])
  | ignored
      (bytes : Bytes)
      (silent : Ignored 2 bytes)

namespace Fragment

def bytes : Fragment → Bytes
  | text bytes _ => bytes
  | cdata bytes _ _ => bytes
  | ignored bytes _ => bytes

/-- The content that a piece has directly in the element. -/
def own : Fragment → Bytes
  | text bytes _ => bytes
  | cdata _ content _ => content
  | ignored _ _ => []

end Fragment

/-- The bytes of content. -/
def written (content : List Fragment) : Bytes :=
  content.flatMap Fragment.bytes

/-- What stands directly in an element, by its bytes. -/
def direct (content : List Fragment) : Bytes :=
  content.flatMap Fragment.own

/-- One text behind another, each of which can be faulty. -/
def joined (first second : Except Error (List Char)) : Except Error (List Char) :=
  match first, second with
  | .error e, _ => .error e
  | .ok _, .error e => .error e
  | .ok t, .ok u => .ok (t ++ u)

/-- What is heard of content behind the bytes of a text: the joined text, or the first fault. -/
def heard (pending : Bytes) : List Fragment → Except Error (List Char)
  | [] => readText (.text pending)
  | .text bytes _ :: content => heard (pending ++ bytes) content
  | .cdata _ bytes _ :: content =>
      joined (readText (.text pending)) (joined (readText (.cdata bytes)) (heard [] content))
  | .ignored _ _ :: content => joined (readText (.text pending)) (heard [] content)

/-- A text as content. -/
def Fragment.ofText (text : List Char) (noTag : '<' ∉ text) : Fragment :=
  .text (encode text) fun hmem => noTag (Utf8.mem_of_mem_encode rfl hmem)

section Hearing

variable {pending : Bytes} {content : List Fragment} {t u before after : List Char}

theorem joined_eq_ok_iff
    {first second : Except Error (List Char)} :
    joined first second = .ok u ↔ ∃ t v, first = .ok t ∧ second = .ok v ∧ u = t ++ v := by
  cases first with
  | error e => simp [joined]
  | ok t =>
      cases second with
      | error e => simp [joined]
      | ok v => simp [joined, eq_comm]

theorem readText_text_eq_ok_iff :
    readText (.text pending) = .ok t ↔ Markup.characterData pending = .ok t := by
  rw [readText]
  cases Markup.characterData pending with
  | ok text => simp
  | error e => simp

theorem readText_cdata_eq_ok_iff :
    readText (.cdata pending) = .ok t ↔ Utf8.decode pending = .ok t := by
  rw [readText]
  cases Utf8.decode pending with
  | ok text => simp
  | error e => simp

theorem readText_surround
    (hbefore : Inert before)
    (hafter : Inert after) :
    readText (.text (encode before ++ (pending ++ encode after))) = .ok u ↔
      ∃ t, readText (.text pending) = .ok t ∧ u = before ++ (t ++ after) := by
  simp only [readText_text_eq_ok_iff, Markup.characterData_surround hbefore hafter]

theorem readText_behind
    (hbefore : Inert before) :
    readText (.text (encode before ++ pending)) = .ok u ↔
      ∃ t, readText (.text pending) = .ok t ∧ u = before ++ t := by
  have hnil : Inert [] := List.forall_mem_nil _
  have hsurround : readText (.text (encode before ++ (pending ++ encode []))) = .ok u ↔
      ∃ t, readText (.text pending) = .ok t ∧ u = before ++ (t ++ []) :=
    readText_surround hbefore hnil
  simpa only [Utf8.encode_nil, List.append_nil] using hsurround

/-- Characters that belong to no reference are heard as they are, around what is heard. -/
theorem heard_surround
    {noTag : '<' ∉ after}
    (hbefore : Inert before)
    (hafter : Inert after) :
    heard (encode before ++ pending) (content ++ [.ofText after noTag]) = .ok u ↔
      ∃ t, heard pending content = .ok t ∧ u = before ++ (t ++ after) := by
  -- the text before joins what is pending, until the first piece that is no text
  induction content generalizing before pending u with
  | nil =>
      rw [List.nil_append, Fragment.ofText, heard, heard, heard, List.append_assoc]
      exact readText_surround hbefore hafter
  | cons p content ih =>
      have hrest : ∀ v, heard [] (content ++ [.ofText after noTag]) = .ok v ↔
          ∃ t, heard [] content = .ok t ∧ v = t ++ after := by
        intro v
        have hnil : Inert [] := List.forall_mem_nil _
        change heard (encode [] ++ []) _ = _ ↔ _
        exact ih hnil
      rw [List.cons_append]
      cases p with
      | text bytes _ =>
          rw [heard, heard, List.append_assoc]
          exact ih hbefore
      | cdata _ bytes _ =>
          simp only [heard, joined_eq_ok_iff, readText_behind hbefore, hrest]
          constructor
          · rintro ⟨_, _, ⟨t, ht, rfl⟩, ⟨v, _, hv, ⟨w, hw, rfl⟩, rfl⟩, rfl⟩
            exact ⟨_, ⟨t, _, ht, ⟨v, w, hv, hw, rfl⟩, rfl⟩, by simp⟩
          · rintro ⟨_, ⟨t, _, ht, ⟨v, w, hv, hw, rfl⟩, rfl⟩, rfl⟩
            exact ⟨_, _, ⟨t, ht, rfl⟩, ⟨v, _, hv, ⟨w, hw, rfl⟩, rfl⟩, by simp⟩
      | ignored _ _ =>
          simp only [heard, joined_eq_ok_iff, readText_behind hbefore, hrest]
          constructor
          · rintro ⟨_, _, ⟨t, ht, rfl⟩, ⟨w, hw, rfl⟩, rfl⟩
            exact ⟨_, ⟨t, w, ht, hw, rfl⟩, by simp⟩
          · rintro ⟨_, ⟨t, w, ht, hw, rfl⟩, rfl⟩
            exact ⟨_, _, ⟨t, ht, rfl⟩, ⟨w, hw, rfl⟩, by simp⟩

theorem joined_eq_nil_iff
    {first second : Except Error (List Char)} :
    joined first second = .ok [] ↔ first = .ok [] ∧ second = .ok [] := by
  rw [joined_eq_ok_iff]
  constructor
  · rintro ⟨t, v, ht, hv, hnil⟩
    obtain ⟨rfl, rfl⟩ := List.append_eq_nil_iff.1 hnil.symm
    exact ⟨ht, hv⟩
  · rintro ⟨ht, hv⟩
    exact ⟨[], [], ht, hv, rfl⟩

theorem readText_text_eq_nil_iff :
    readText (.text pending) = .ok [] ↔ pending = [] := by
  rw [readText_text_eq_ok_iff]
  constructor
  · exact Markup.eq_nil_of_characterData
  · rintro rfl
    exact Markup.characterData_eq_ok_iff.2 ⟨[], rfl, .nil⟩

theorem readText_cdata_eq_nil_iff :
    readText (.cdata pending) = .ok [] ↔ pending = [] := by
  rw [readText_cdata_eq_ok_iff, Utf8.decode_eq_ok_iff, Utf8.encode_nil]

theorem direct_cons (p : Fragment) (content : List Fragment) :
    direct (p :: content) = p.own ++ direct content := rfl

/-- Nothing is heard exactly where nothing stands. -/
theorem heard_eq_nil_iff :
    heard pending content = .ok [] ↔ pending ++ direct content = [] := by
  induction content generalizing pending with
  | nil => rw [heard, readText_text_eq_nil_iff, direct, List.flatMap_nil, List.append_nil]
  | cons p content ih =>
      rw [direct_cons]
      cases p with
      | text bytes _ => rw [heard, ih, Fragment.own, List.append_assoc]
      | cdata _ bytes _ =>
          rw [heard, joined_eq_nil_iff, joined_eq_nil_iff, ih, readText_text_eq_nil_iff,
            readText_cdata_eq_nil_iff, Fragment.own, List.nil_append]
          simp only [List.append_eq_nil_iff]
      | ignored _ _ =>
          rw [heard, joined_eq_nil_iff, ih, readText_text_eq_nil_iff, Fragment.own,
            List.nil_append, List.append_eq_nil_iff]

end Hearing

namespace State

/-- The decoder is directly in a child of the root that belongs to a numeric field. -/
structure Hears (s : State) (f : NumberField) : Prop where
  depth_eq : s.depth = 2
  field_eq : s.field = some (.number f)

/-- The decoder has just come into such a child. -/
structure Enters (s : State) (f : NumberField) (m : Message) : Prop extends s.Hears f where
  message_eq : s.message = m.clear (.number f)
  scratch_eq : s.scratch = ""

/-- Goes on with what is heard, or stops at a fault. -/
def hear (s : State) (text : Except Error (List Char)) (onward : State → Outcome) : Outcome :=
  match text with
  | .ok t => onward (s.gain t)
  | .error e => ⟨s.message, some e⟩

section Listening

variable {s : State} {f : NumberField} {opened : List Bytes} {r r' : Reader} {e : Event}
  {rest pending : Bytes} {content : List Fragment} {first second : Except Error (List Char)}
  {onward : State → Outcome}

theorem Hears.receiver_eq
    (h : s.Hears f) :
    s.receiver = some (.number f) := by
  rw [receiver, if_pos h.depth_eq, h.field_eq]

theorem Hears.gain_eq
    (h : s.Hears f)
    (t : List Char) :
    s.gain t = { s with scratch := s.scratch ++ String.ofList t } := by
  rw [gain, h.receiver_eq]
  rfl

theorem Hears.hears_gain
    (h : s.Hears f)
    (t : List Char) :
    (s.gain t).Hears f := by
  rw [h.gain_eq]
  exact ⟨h.depth_eq, h.field_eq⟩

theorem hear_congr
    {text : Except Error (List Char)}
    {onward' : State → Outcome}
    (h : ∀ t, onward (s.gain t) = onward' (s.gain t)) :
    s.hear text onward = s.hear text onward' := by
  cases text with
  | error e => rfl
  | ok t => exact h t

/-- What is heard first is gone on with, and then what is heard second. -/
theorem Hears.hear_joined
    (h : s.Hears f) :
    s.hear (joined first second) onward = s.hear first fun t => t.hear second onward := by
  cases first with
  | error e => rfl
  | ok t =>
      cases second with
      | error e =>
          simp only [joined, hear, h.gain_eq]
      | ok u =>
          simp only [joined, hear, gain_gain]

/-- Content that stands directly in the child is heard. -/
theorem Hears.readOn_content
    (h : s.Hears f)
    (hnext : r.next = .ok (some (e, r')))
    (he : e.isContent = true) :
    s.readOn r = s.hear (readText e) fun t => t.readOn r' := by
  have hstep := step_content s he
  rw [h.receiver_eq] at hstep
  cases hread : readText e with
  | ok added =>
      rw [hread] at hstep
      rw [readOn_of_reading hnext hstep, hear, gain, h.receiver_eq]
  | error fault =>
      rw [hread] at hstep
      exact readOn_of_finished hnext hstep

/-- Character data is heard up to the next markup, also where there is none. -/
theorem Hears.readOn_pending
    (h : s.Hears f)
    (hpending : Markup.opening ∉ pending)
    (hrest : rest.head? = some Markup.opening) :
    s.readOn ⟨pending ++ rest, opened⟩ =
      s.hear (readText (.text pending)) fun t => t.readOn ⟨rest, opened⟩ := by
  by_cases hempty : pending = []
  · subst hempty
    rw [readText_text_eq_nil_iff.2 rfl, hear, gain_nil, List.nil_append]
  · obtain ⟨more, rfl⟩ := List.head?_eq_some_iff.1 hrest
    refine h.readOn_content (Reader.next_content hempty ?_ rfl) rfl
    rintro b hb rfl
    exact hpending hb

theorem head?_of_cdata
    {bytes own : Bytes}
    (h : Reader.Spells bytes [.cdata own]) :
    bytes.head? = some Markup.opening := by
  cases h.passed with
  | event next later => exact Reader.head?_of_next (fun _ h => by cases h) next

theorem Hears.readOn_cdata
    {bytes own : Bytes}
    (h : s.Hears f)
    (hspelled : Reader.Spells bytes [.cdata own]) :
    s.readOn ⟨bytes ++ rest, opened⟩ =
      s.hear (readText (.cdata own)) fun t => t.readOn ⟨rest, opened⟩ := by
  have hborders : ∀ e, [Event.cdata own].getLast? = some e → e.Borders rest := by
    intro e he
    cases he
    trivial
  cases hspelled.passes hborders opened with
  | event next later =>
      cases later
      exact h.readOn_content next rfl

theorem Hears.readOn_ignored
    {bytes : Bytes}
    (h : s.Hears f)
    (hsilent : Ignored 2 bytes) :
    s.readOn ⟨bytes ++ rest, opened⟩ = s.readOn ⟨rest, opened⟩ := by
  obtain ⟨-, es, hpasses, hquiet⟩ := hsilent.exists_passes
  have hstands : s.Stands 2 := ⟨h.depth_eq, fun hlt => absurd hlt (Nat.lt_irrefl 2)⟩
  rw [readOn_of_passes (hpasses rest opened)]
  exact hquiet s hstands _ _

/-- The decoder goes through content up to the end tag. -/
theorem Hears.readOn_written
    (h : s.Hears f)
    (hpending : Markup.opening ∉ pending)
    (hrest : rest.head? = some Markup.opening) :
    s.readOn ⟨pending ++ (written content ++ rest), opened⟩ =
      s.hear (heard pending content) fun t => t.readOn ⟨rest, opened⟩ := by
  induction content generalizing s pending with
  | nil => exact h.readOn_pending hpending hrest
  | cons p content ih =>
      have hwritten : written (p :: content) ++ rest = p.bytes ++ (written content ++ rest) := by
        rw [written, List.flatMap_cons, List.append_assoc]
        rfl
      rw [hwritten]
      cases p with
      | text bytes noTag =>
          rw [heard, ← ih h (by simp [hpending, noTag]), Fragment.bytes, List.append_assoc]
      | cdata bytes own spelled =>
          have hhead : (bytes ++ (written content ++ rest)).head? = some Markup.opening := by
            rw [List.head?_append, head?_of_cdata spelled]
            rfl
          rw [Fragment.bytes, h.readOn_pending hpending hhead, heard, h.hear_joined]
          refine hear_congr fun t => ?_
          have ht := h.hears_gain t
          rw [ht.readOn_cdata spelled, ht.hear_joined]
          refine hear_congr fun u => ?_
          exact ih (ht.hears_gain u) List.not_mem_nil
      | ignored bytes silent =>
          have hhead : (bytes ++ (written content ++ rest)).head? = some Markup.opening := by
            rw [List.head?_append, silent.exists_passes.1]
            rfl
          rw [Fragment.bytes, h.readOn_pending hpending hhead, heard, h.hear_joined]
          refine hear_congr fun t => ?_
          have ht := h.hears_gain t
          rw [ht.readOn_ignored silent]
          exact ih ht List.not_mem_nil

/-- What the end tag does of what has been heard. -/
theorem Enters.step_stop
    {m : Message}
    (h : s.Enters f m)
    (t : List Char)
    (name : Bytes) :
    (s.gain t).step (.stop name) =
      match (Field.number f).parse? t with
      | some value =>
          .reading { s with
            message := m.set (.number f) value, depth := 1, field := none, scratch := "" }
      | none => s.fail (.invalidNumber f (String.ofList t)) := by
  have hgained := h.hears_gain t
  have hgain := h.gain_eq t
  rw [h.scratch_eq, String.empty_append] at hgain
  have hcollected : (s.gain t).scratch = collected (s.gain t).field t := by
    rw [hgained.field_eq, hgain]
    rfl
  have hfinish : finishField (s.gain t).message (s.gain t).field t =
      finishField (m.clear (.number f)) (some (.number f)) t := by
    rw [hgained.field_eq, hgain, ← h.message_eq]
  rw [step, closeElement, if_pos hgained.depth_eq, closeField_eq hcollected, hfinish,
    finishField_clear, hgain]
  cases (Field.number f).parse? t with
  | none => rfl
  | some value =>
      simp only [h.depth_eq]
      rfl

end Listening
end State

end Decoder
end PushGate
