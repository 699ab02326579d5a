import PushGate.Message.Decoder
import PushGate.Proofs.Message.Value

/-!
# The decoder beside the reader

The decoder is given the events of a document in one list.  Proofs about documents follow the reader
instead, which finds one event after the other: `readOn` is the decoder in a state, with the reader
at a place, and each way in which the reader can go on has its equation.

**Results.**
* `finishField_eq_error_iff`: when the end of a child is refused.
* `closeField_eq`: what the end of a child does, in terms of the child's whole content.
* `readOn_of_fault`, `readOn_of_end`, `readOn_of_reading`, `readOn_of_finished`: one step.
* `decode_eq_readOn`: decoding is reading on from the beginning.
-/

namespace PushGate

open Markup (Event Ending Reading Reader)

namespace Decoder

/-- What the decoder has put aside for the field of the open child, given the child's content. -/
def collected (field : Option Field) (content : List Char) : String :=
  match field with
  | some (.number _) => String.ofList content
  | _ => ""

@[simp] theorem collected_nil (field : Option Field) : collected field [] = "" := by
  unfold collected
  split <;> rfl

/-- What the end of a child makes of the message, given the child's content. -/
def finishField
    (m : Message)
    (field : Option Field)
    (content : List Char) :
    Except Error Message :=
  match field with
  | some (.number f) =>
      if content = [] then .ok m
      else
        match m.store? f (String.ofList content) with
        | some n => .ok n
        | none => .error (.invalidNumber f (String.ofList content))
  | _ => .ok m

/-- The end of a child refuses content that is no number, and nothing else. -/
theorem finishField_eq_error_iff
    {m : Message}
    {field : Option Field}
    {content : List Char}
    {e : Error} :
    finishField m field content = .error e ↔
      ∃ f, field = some (.number f) ∧ content ≠ [] ∧ f.parse? content = none ∧
        e = .invalidNumber f (String.ofList content) := by
  cases field with
  | none => simp [finishField]
  | some f =>
      cases f with
      | text f => simp [finishField]
      | number f =>
          have hrefused :
              m.store? f (String.ofList content) = none ↔ f.parse? content = none := by
            rw [Message.store?_eq_none_iff, String.toList_ofList]
          by_cases hempty : content = []
          · simp [finishField, hempty]
          · simp only [finishField, if_neg hempty]
            cases hstore : m.store? f (String.ofList content) with
            | none =>
                have hf := hrefused.1 hstore
                simp only [Except.error.injEq]
                constructor
                · rintro rfl
                  exact ⟨f, rfl, hempty, hf, rfl⟩
                · rintro ⟨g, hg, -, -, rfl⟩
                  cases hg
                  rfl
            | some n =>
                simp only [reduceCtorEq, false_iff]
                rintro ⟨g, hg, -, hf, -⟩
                cases hg
                rw [hrefused.2 hf] at hstore
                cases hstore

namespace State

section Fields

variable (s : State) (f : Option Field)

@[simp] theorem clearField_depth : (s.clearField f).depth = s.depth := by
  cases f <;> rfl

@[simp] theorem clearField_rootSeen : (s.clearField f).rootSeen = s.rootSeen := by
  cases f <;> rfl

@[simp] theorem clearField_field : (s.clearField f).field = s.field := by
  cases f <;> rfl

@[simp] theorem clearField_scratch : (s.clearField f).scratch = s.scratch := by
  cases f <;> rfl

end Fields

/-- The end of a child, where the child's content has been read as it must. -/
theorem closeField_eq
    {s : State}
    {content : List Char}
    (h : s.scratch = collected s.field content) :
    s.closeField =
      match finishField s.message s.field content with
      | .ok m => .ok { s with message := m, field := none, scratch := "" }
      | .error e => .error e := by
  obtain ⟨m, depth, rootSeen, field, scratch⟩ := s
  simp only at h
  subst h
  cases field with
  | none => rfl
  | some f =>
      cases f with
      | text f => rfl
      | number f =>
          simp only [closeField, collected, finishField, String.ofList_eq_empty_iff]
          by_cases hempty : content = []
          · simp [hempty]
          · simp only [if_neg hempty]
            cases m.store? f (String.ofList content) <;> rfl

/-- Goes through what the reader finds from its place on. -/
def readOn (s : State) (r : Reader) : Outcome :=
  s.run r.read.events r.read.ending

section Steps

variable {s t : State} {r r' : Reader} {event : Event}

theorem readOn_of_fault
    {e : Markup.Error}
    (h : r.next = .error e) :
    s.readOn r = s.finish (.malformed e) := by
  rw [readOn, Reader.read_eq, h]
  rfl

theorem readOn_of_end
    (h : r.next = .ok none) :
    s.readOn r = s.finish .finished := by
  rw [readOn, Reader.read_eq, h]
  rfl

theorem readOn_of_reading
    (h : r.next = .ok (some (event, r')))
    (hstep : s.step event = .reading t) :
    s.readOn r = t.readOn r' := by
  rw [readOn, Reader.read_eq, h]
  simp only [run, hstep, readOn]

theorem readOn_of_finished
    {o : Outcome}
    (h : r.next = .ok (some (event, r')))
    (hstep : s.step event = .finished o) :
    s.readOn r = o := by
  rw [readOn, Reader.read_eq, h]
  simp only [run, hstep]

end Steps

end State

/-- Decoding is reading on from the beginning, with a blank message. -/
theorem decode_eq_readOn
    (target : Message)
    (bytes : Bytes) :
    decode target bytes =
      State.readOn { message := .blank } (Reader.ofBytes bytes) := by
  rw [decode_eq]
  rfl

end Decoder
end PushGate
