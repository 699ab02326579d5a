import PushGate.Proofs.Decoder.Settling

/-!
# What a push reaches

A field changes only on account of its own elements.  The tag of such an element, directly in the root,
clears the field and opens it; only while it is open does text go to it, and only its end puts a number
there.  So a field is left as it was by any part of a push in which the decoder does not come to a tag
of that field, also where the push is faulty and the decoder stops in the middle.

**Results.**
* `step_keeps`: one event leaves a field as it was, if the field is not open and the event is no tag
  of the field in the root.
* `get_run_of_not_reaches`: so does the rest of a push.
-/

namespace PushGate

open Markup (Event Ending Reading)

namespace Markup

/-- A tag of an element that belongs to a field. -/
def Event.Names (e : Event) (f : Field) : Prop :=
  ∃ name, (e = .start name ∨ e = .empty name) ∧ Field.ofTag (localName name) = some f

end Markup

namespace Decoder

/-- The decoder comes to an element of a field: there is a tag of it directly in the root, and nothing
before the tag is decisive. -/
structure Reaches (r : Reading) (i : Nat) (f : Field) : Prop where
  tag : ∃ e, r.events[i]? = some e ∧ e.Names f
  inRoot : depthAt r.events i = 1
  undecided : ∀ k < i, ∀ v, ¬ Settles r k v

/-- A field is left as it was and is not open. -/
def Progress.Keeps (p : Progress) (m : Message) (f : Field) : Prop :=
  match p with
  | .reading t => t.message.get f = m.get f ∧ t.field ≠ some f
  | .finished o => o.message.get f = m.get f

section Step

variable {s : State} {f : Field} {e : Event}

theorem enterRoot_keeps
    {next : State}
    (name : Bytes)
    (hmessage : next.message = s.message)
    (hfield : next.field ≠ some f) :
    (s.enterRoot next name).Keeps s.message f := by
  rw [State.enterRoot]
  split
  · exact ⟨congrArg (Message.get · f) hmessage, hfield⟩
  · exact rfl

/-- Clearing the field of another element. -/
theorem get_clearField_of_ne
    {g : Option Field}
    (h : g ≠ some f) :
    (s.clearField g).message.get f = s.message.get f := by
  cases g with
  | none => rfl
  | some g => exact Message.get_clear_of_ne s.message g fun heq => h (congrArg some heq.symm)

variable (hfield : s.field ≠ some f)
include hfield

theorem append_keeps
    {g : Field}
    (hg : s.receiver = some g)
    (added : String) :
    (Progress.reading (s.append g added)).Keeps s.message f := by
  have hopen : s.field = some g := by
    rw [State.receiver] at hg
    split at hg
    · exact hg
    · cases hg
  have hne : f ≠ g := by
    rintro rfl
    exact hfield hopen
  cases g with
  | text g => exact ⟨Message.get_set_of_ne s.message _ hne, hfield⟩
  | number g => exact ⟨rfl, hfield⟩

theorem content_keeps (he : e.isContent = true) :
    (s.step e).Keeps s.message f := by
  rw [step_content s he]
  cases hreceiver : s.receiver with
  | none => exact ⟨rfl, hfield⟩
  | some g =>
      cases readText e with
      | ok added => exact append_keeps hfield hreceiver _
      | error fault => exact rfl

theorem closeField_keeps
    {t : State}
    (ht : s.closeField = .ok t) :
    t.message.get f = s.message.get f ∧ t.field ≠ some f := by
  have hclosed : none ≠ some f := (Option.some_ne_none f).symm
  obtain ⟨m, depth, rootSeen, field, scratch⟩ := s
  cases field with
  | none =>
      cases ht
      exact ⟨rfl, hfield⟩
  | some g =>
      cases g with
      | text g =>
          cases ht
          exact ⟨rfl, hclosed⟩
      | number g =>
          have hne : f ≠ .number g := by
            rintro rfl
            exact hfield rfl
          by_cases hempty : scratch = ""
          · simp only [State.closeField, if_pos hempty] at ht
            cases ht
            exact ⟨rfl, hclosed⟩
          · simp only [State.closeField, if_neg hempty, Message.store?_eq] at ht
            cases hparse : g.parse? scratch.toList with
            | none =>
                simp only [hparse] at ht
                cases ht
            | some value =>
                simp only [hparse] at ht
                cases ht
                exact ⟨Message.get_set_of_ne (f := .number g) m value hne, hclosed⟩

theorem stop_keeps (name : Bytes) :
    (s.step (.stop name)).Keeps s.message f := by
  simp only [State.step, State.closeElement]
  by_cases htwo : s.depth = 2
  · rw [if_pos htwo]
    cases hclose : s.closeField with
    | error e => exact rfl
    | ok t =>
        obtain ⟨hmessage, hopen⟩ := closeField_keeps hfield hclose
        simp only
        split
        · exact hmessage
        · exact ⟨hmessage, hopen⟩
  · rw [if_neg htwo]
    simp only
    split
    · exact rfl
    · exact ⟨rfl, hfield⟩

/-- One event leaves a field as it was, if the field is not open and the event is no tag of the field
in the root. -/
theorem step_keeps (hother : s.depth = 1 → ¬ e.Names f) :
    (s.step e).Keeps s.message f := by
  cases e with
  | start name =>
      simp only [State.step, State.openElement]
      by_cases hzero : s.depth = 0
      · rw [if_pos hzero]
        exact enterRoot_keeps _ rfl hfield
      rw [if_neg hzero]
      by_cases hone : s.depth = 1
      · have hne : Field.ofTag (Markup.localName name) ≠ some f :=
          fun h => hother hone ⟨name, Or.inl rfl, h⟩
        rw [if_pos hone]
        exact ⟨get_clearField_of_ne hne, hne⟩
      · rw [if_neg hone]
        exact ⟨rfl, hfield⟩
  | empty name =>
      simp only [State.step, State.emptyElement]
      by_cases hzero : s.depth = 0
      · rw [if_pos hzero]
        exact enterRoot_keeps _ rfl hfield
      rw [if_neg hzero]
      by_cases hone : s.depth = 1
      · have hne : Field.ofTag (Markup.localName name) ≠ some f :=
          fun h => hother hone ⟨name, Or.inr rfl, h⟩
        rw [if_pos hone]
        exact ⟨get_clearField_of_ne hne, by rwa [State.clearField_field]⟩
      · rw [if_neg hone]
        exact ⟨rfl, hfield⟩
  | stop name => exact stop_keeps hfield name
  | text content => exact content_keeps hfield rfl
  | cdata content => exact content_keeps hfield rfl
  | comment => exact ⟨rfl, hfield⟩
  | instruction => exact ⟨rfl, hfield⟩
  | doctype => exact ⟨rfl, hfield⟩

end Step

theorem finish_message
    (s : State)
    (ending : Ending) :
    (s.finish ending).message = s.message := by
  cases ending with
  | malformed e => rfl
  | finished =>
      rw [State.finish]
      split
      · rfl
      · split <;> rfl

/-- A field that is not open keeps its value to the end of a push that does not reach it any more. -/
theorem get_run_of_not_reaches
    {r : Reading}
    {i : Nat}
    {s : State}
    {f : Field}
    (hbalanced : Balanced r.events)
    (h : Tracks r.events i s)
    (hi : i ≤ r.events.length)
    (hquiet : ∀ k < i, ∀ v, ¬ Settles r k v)
    (hfield : s.field ≠ some f)
    (hnever : ∀ k, i ≤ k → ¬ Reaches r k f) :
    (s.run (r.events.drop i) r.ending).message.get f = s.message.get f := by
  generalize hn : r.events.length - i = n
  induction n generalizing i s with
  | zero =>
      obtain rfl : i = r.events.length := by omega
      rw [List.drop_length, State.run, finish_message]
  | succ n ih =>
      have hlt : i < r.events.length := by omega
      have hevent := List.getElem?_eq_getElem hlt
      have hother : s.depth = 1 → ¬ r.events[i].Names f := by
        intro hdepth hnames
        exact hnever i (Nat.le_refl i) ⟨⟨_, hevent, hnames⟩, h.depth ▸ hdepth, hquiet⟩
      have hkeeps := step_keeps hfield hother
      have haccords := step_tracks h hbalanced hevent
      rw [List.drop_eq_getElem_cons hlt]
      cases hstep : s.step r.events[i] with
      | finished o =>
          rw [hstep] at hkeeps
          simp only [State.run, hstep]
          exact hkeeps
      | reading t =>
          rw [hstep] at hkeeps haccords
          obtain ⟨hmessage, hopen⟩ := hkeeps
          obtain ⟨htracks, hhere⟩ := haccords
          have hquiet' : ∀ k < i + 1, ∀ v, ¬ Settles r k v := by
            intro k hk
            rcases Nat.lt_or_eq_of_le (Nat.le_of_lt_succ hk) with hlt | rfl
            · exact hquiet k hlt
            · exact hhere
          simp only [State.run, hstep]
          rw [← hmessage]
          exact ih htracks (by omega) hquiet' hopen (fun k hk => hnever k (by omega)) (by omega)

end Decoder
end PushGate
