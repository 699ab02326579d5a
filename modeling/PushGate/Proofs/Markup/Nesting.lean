import PushGate.Markup.Reader

/-!
# Nesting of events

A reader knows the open elements by name; the events that it has given tell how many these are.
A start tag opens one element more, an end tag closes the innermost, and no other event opens or
closes anything.  An end tag is given only where an element is open, so in every initial part of a
document's events the end tags are at most as many as the start tags.

**Results.**
* `read_induction`: induction along the events of a document.
* `next_nest`: what an event does to the open elements.
* `closes_le_opens`: the end tags never outnumber the start tags.
-/

namespace PushGate
namespace Markup

namespace Event

/-- A start tag. -/
def opens : Event → Bool
  | .start _ => true
  | _ => false

/-- An end tag. -/
def closes : Event → Bool
  | .stop _ => true
  | _ => false

/-- The elements that are open after an event. -/
def nest (opened : List Bytes) : Event → List Bytes
  | .start name => name :: opened
  | .stop _ => opened.tail
  | _ => opened

/-- An event that neither opens nor closes an element. -/
def Flat (e : Event) : Prop :=
  e.opens = false ∧ e.closes = false

theorem Flat.nest_eq
    {e : Event}
    (h : e.Flat)
    (opened : List Bytes) :
    e.nest opened = opened := by
  cases e with
  | start name => exact absurd h.1 (by simp [opens])
  | stop name => exact absurd h.2 (by simp [closes])
  | _ => rfl

end Event

namespace Reader

/-- Induction along the events of a document: at a fault, at the end, and before an event. -/
theorem read_induction
    {motive : Reader → Prop}
    (fault : ∀ r e, r.next = .error e → motive r)
    (finish : ∀ r, r.next = .ok none → motive r)
    (event : ∀ r e r', r.next = .ok (some (e, r')) → motive r' → motive r)
    (r : Reader) :
    motive r := by
  generalize hn : r.rest.length = n
  induction n using Nat.strongRecOn generalizing r with
  | ind n ih =>
      cases hnext : r.next with
      | error e => exact fault r e hnext
      | ok found =>
          cases found with
          | none => exact finish r hnext
          | some p =>
              obtain ⟨e, r'⟩ := p
              have hlt : r'.rest.length < n := hn ▸ next_length hnext
              exact event r e r' hnext (ih _ hlt r' rfl)

section Events

theorem comment_flat
    {bytes rest : Bytes}
    {e : Event}
    (h : comment bytes = .ok (e, rest)) :
    e.Flat := by
  rw [comment] at h
  split at h
  · cases h
    exact ⟨rfl, rfl⟩
  · cases h

theorem cdata_flat
    {bytes rest : Bytes}
    {e : Event}
    (h : cdata bytes = .ok (e, rest)) :
    e.Flat := by
  rw [cdata] at h
  split at h
  · cases h
    exact ⟨rfl, rfl⟩
  · cases h

theorem doctype_flat
    {bytes rest : Bytes}
    {e : Event}
    (h : doctype bytes = .ok (e, rest)) :
    e.Flat := by
  rw [doctype] at h
  split at h
  · split at h
    · cases h
    · cases h
      exact ⟨rfl, rfl⟩
  · cases h

theorem declaration_flat
    {bytes rest : Bytes}
    {e : Event}
    (h : declaration bytes = .ok (e, rest)) :
    e.Flat := by
  unfold declaration at h
  split at h
  · cases h
  split at h
  · exact cdata_flat h
  split at h
  · exact comment_flat h
  split at h
  · exact doctype_flat h
  · cases h

theorem instruction_flat
    {bytes rest : Bytes}
    {e : Event}
    (h : instruction bytes = .ok (e, rest)) :
    e.Flat := by
  simp only [instruction] at h
  split at h
  · cases h
    exact ⟨rfl, rfl⟩
  · cases h

theorem map_flat
    {opened : List Bytes}
    {read : Except Error (Event × Bytes)}
    {e : Event}
    {r : Reader}
    (hflat : ∀ e rest, read = .ok (e, rest) → e.Flat)
    (h : (read.map fun p => (p.1, (⟨p.2, opened⟩ : Reader))) = .ok (e, r)) :
    r.opened = e.nest opened ∧ e.closes = false := by
  cases hread : read with
  | error fault =>
      rw [hread] at h
      cases h
  | ok p =>
      obtain ⟨e', rest⟩ := p
      rw [hread] at h
      cases h
      have he := hflat _ _ hread
      exact ⟨(he.nest_eq opened).symm, he.2⟩

theorem endTag_nest
    {opened : List Bytes}
    {bytes : Bytes}
    {e : Event}
    {r : Reader}
    (h : endTag opened bytes = .ok (e, r)) :
    r.opened = e.nest opened ∧ opened ≠ [] := by
  simp only [endTag] at h
  split at h
  · cases h
  · split at h
    · cases h
      exact ⟨rfl, List.cons_ne_nil _ _⟩
    · cases h

theorem startTag_nest
    {opened : List Bytes}
    {bytes : Bytes}
    {e : Event}
    {r : Reader}
    (h : startTag opened bytes = .ok (e, r)) :
    r.opened = e.nest opened ∧ e.closes = false := by
  rw [startTag] at h
  split at h
  · cases h
  · split at h
    · cases h
      exact ⟨rfl, rfl⟩
    · cases h
      exact ⟨rfl, rfl⟩

theorem markup_nest
    {opened : List Bytes}
    {b : UInt8}
    {rest : Bytes}
    {e : Event}
    {r : Reader}
    (h : markup opened b rest = .ok (e, r)) :
    r.opened = e.nest opened ∧ (e.closes = true → opened ≠ []) := by
  rw [markup] at h
  split at h
  · obtain ⟨hnest, hcloses⟩ := map_flat (fun _ _ => declaration_flat) h
    exact ⟨hnest, fun hc => absurd (hcloses.symm.trans hc) (by decide)⟩
  split at h
  · obtain ⟨hnest, hopened⟩ := endTag_nest h
    exact ⟨hnest, fun _ => hopened⟩
  split at h
  · obtain ⟨hnest, hcloses⟩ := map_flat (fun _ _ => instruction_flat) h
    exact ⟨hnest, fun hc => absurd (hcloses.symm.trans hc) (by decide)⟩
  · obtain ⟨hnest, hcloses⟩ := startTag_nest h
    exact ⟨hnest, fun hc => absurd (hcloses.symm.trans hc) (by decide)⟩

/-- What an event does to the open elements; an end tag needs one that is open. -/
theorem next_nest
    {r r' : Reader}
    {e : Event}
    (h : r.next = .ok (some (e, r'))) :
    r'.opened = e.nest r.opened ∧ (e.closes = true → r.opened ≠ []) := by
  rw [next] at h
  split at h
  · cases h
  · rename_i b rest hrest
    split at h
    · split at h
      · cases h
      · rename_i c rest'
        cases hm : markup r.opened c rest' with
        | error fault =>
            rw [hm] at h
            cases h
        | ok p =>
            rw [hm] at h
            cases h
            exact markup_nest hm
    · cases h
      refine ⟨rfl, ?_⟩
      intro hc
      cases hc

end Events

/-- At the beginning of a document no element is open. -/
theorem opened_ofBytes (bytes : Bytes) : (ofBytes bytes).opened = [] := by
  unfold ofBytes
  split <;> rfl

/-- The end tags of an initial part never outnumber its start tags and the elements open before. -/
theorem closes_le_opens (r : Reader) :
    ∀ i, (r.read.events.take i).countP Event.closes ≤
      (r.read.events.take i).countP Event.opens + r.opened.length := by
  induction r using read_induction with
  | fault r e h =>
      intro i
      simp [read_eq, h]
  | finish r h =>
      intro i
      simp [read_eq, h]
  | event r e r' h ih =>
      intro i
      rw [read_eq, h]
      cases i with
      | zero => simp
      | succ i =>
          obtain ⟨hopened, hcloses⟩ := next_nest h
          have := ih i
          cases e with
          | start name =>
              simp only [Event.nest] at hopened
              simp only [hopened, List.length_cons] at this
              simp only [List.take_succ_cons, List.countP_cons, Event.closes, Event.opens,
                Bool.false_eq_true, if_false, if_true]
              omega
          | stop name =>
              have hne : r.opened ≠ [] := hcloses rfl
              have hpos := List.length_pos_iff.2 hne
              simp only [Event.nest] at hopened
              simp only [hopened, List.length_tail] at this
              simp only [List.take_succ_cons, List.countP_cons, Event.closes, Event.opens,
                Bool.false_eq_true, if_false, if_true]
              omega
          | _ =>
              simp only [Event.nest] at hopened
              simp only [hopened] at this
              simpa [List.countP_cons, Event.closes, Event.opens] using this

end Reader

end Markup
end PushGate
