import PushGate.Proofs.Markup.Passage

/-!
# Unclosed elements

What a reader has passed is nested but for the start tags of the elements that are still open: before,
between and behind these, every element that has been opened has been closed, by an end tag with its own
name.  If no element is open, it is nested altogether.

Nested events begin with what is no element, and then comes an element with all that stands in it.

**Results.**
* `unclosed_next`, `Passes.unclosed`: the tags that a reader has passed.
* `WellNested.exists_element`: the first element of nested events.
* `reverse_nest`: the second outermost element stays as long as two are open.
-/

namespace PushGate
namespace Markup

/-- Events that are nested but for the start tags of elements that are still open, the innermost of these
first. -/
inductive Unclosed : List Bytes → List Event → Prop
  | nested
      {es : List Event}
      (nested : WellNested es) :
      Unclosed [] es
  | inside
      {name : Bytes} {opened : List Bytes} {es content : List Event}
      (outer : Unclosed opened es)
      (inner : WellNested content) :
      Unclosed (name :: opened) (es ++ .start name :: content)

section Nesting

variable {opened : List Bytes} {es es' : List Event}

theorem WellNested.append
    (h : WellNested es)
    (h' : WellNested es') :
    WellNested (es ++ es') := by
  induction h with
  | nil => exact h'
  | flat flat _ ih => exact .flat flat ih
  | element inner _ _ ih =>
      rw [List.cons_append, List.append_assoc, List.cons_append]
      exact .element inner ih

theorem Unclosed.append
    (h : Unclosed opened es)
    (h' : WellNested es') :
    Unclosed opened (es ++ es') := by
  cases h with
  | nested nested => exact .nested (nested.append h')
  | inside outer inner =>
      rw [List.append_assoc, List.cons_append]
      exact .inside outer (inner.append h')

theorem Unclosed.wellNested
    (h : Unclosed [] es) :
    WellNested es := by
  cases h with
  | nested nested => exact nested

/-- Nested events without an element, or the first element among them. -/
theorem WellNested.exists_element
    (h : WellNested es) :
    (∀ e ∈ es, e.Flat ∧ ∀ name, e ≠ .empty name) ∨
      ∃ before name element later, es = before ++ (element ++ later) ∧
        (∀ e ∈ before, e.Flat ∧ ∀ name, e ≠ .empty name) ∧ IsElement name element := by
  induction h with
  | nil => exact Or.inl (List.forall_mem_nil _)
  | @flat e es flat _ ih =>
      by_cases hempty : ∃ name, e = .empty name
      · obtain ⟨name, rfl⟩ := hempty
        exact Or.inr ⟨[], name, [.empty name], es, rfl, List.forall_mem_nil _, .empty⟩
      · have he : e.Flat ∧ ∀ name, e ≠ .empty name := ⟨flat, not_exists.1 hempty⟩
        rcases ih with hnone | ⟨before, name, element, later, rfl, hbefore, helement⟩
        · exact Or.inl (List.forall_mem_cons.2 ⟨he, hnone⟩)
        · exact Or.inr ⟨e :: before, name, element, later, rfl,
            List.forall_mem_cons.2 ⟨he, hbefore⟩, helement⟩
  | @element name content later inner _ _ _ =>
      refine Or.inr ⟨[], name, .start name :: (content ++ [.stop name]), later, ?_,
        List.forall_mem_nil _, .tags inner⟩
      simp

/-- As long as two elements are open, the second outermost stays. -/
theorem reverse_nest
    {e : Event}
    (hopened : 2 ≤ opened.length)
    (hnest : 2 ≤ (e.nest opened).length) :
    (e.nest opened).reverse[1]? = opened.reverse[1]? := by
  cases e with
  | start name =>
      rw [Event.nest, List.reverse_cons, List.getElem?_append_left (by rwa [List.length_reverse])]
  | stop name =>
      cases opened with
      | nil => rfl
      | cons inner outer =>
          rw [Event.nest, List.tail_cons, List.length_cons] at *
          rw [List.reverse_cons, List.getElem?_append_left (by rwa [List.length_reverse])]
  | _ => rfl

end Nesting

namespace Reader

variable {r r' r'' : Reader} {es es' : List Event} {e : Event}

/-- An end tag has the name of the innermost open element, as it is written, and closes it. -/
theorem stop_spec
    {name : Bytes}
    (h : r.next = .ok (some (.stop name, r'))) :
    r.opened = name :: r'.opened ∧
      ∃ bytes, r.rest = opening :: slash :: bytes ∧
        trimName (bytes.takeWhile (· != closing)) = name := by
  obtain ⟨bytes, hrest, htag⟩ := endTag_of_next h
  have hopened := opened_of_endTag htag
  refine ⟨hopened, bytes, hrest, ?_⟩
  rw [hopened] at htag
  simp only [endTag] at htag
  split at htag
  · assumption
  · cases htag

/-- One event more. -/
theorem unclosed_next
    (h : Unclosed r.opened es)
    (next : r.next = .ok (some (e, r'))) :
    Unclosed r'.opened (es ++ [e]) := by
  obtain ⟨hnest, -⟩ := next_nest next
  cases e with
  | start name =>
      rw [hnest]
      exact .inside h .nil
  | stop name =>
      obtain ⟨hopened, -⟩ := stop_spec next
      rw [hopened] at h
      cases h with
      | inside outer inner =>
          rw [List.append_assoc, List.cons_append]
          exact outer.append (.element inner .nil)
  | _ =>
      rw [hnest]
      exact h.append (.flat ⟨rfl, rfl⟩ .nil)

theorem Passes.concat
    (h : Passes r es r')
    (next : r'.next = .ok (some (e, r''))) :
    Passes r (es ++ [e]) r'' := by
  induction h with
  | here r => exact .event next (.here _)
  | event next' _ ih => exact .event next' (ih next)

/-- What has been passed is nested but for the elements that are open. -/
theorem Passes.unclosed
    (h : Passes r es' r')
    (hr : Unclosed r.opened es) :
    Unclosed r'.opened (es ++ es') := by
  induction h generalizing es with
  | here r => rwa [List.append_nil]
  | event next _ ih =>
      rw [List.append_cons]
      exact ih (unclosed_next hr next)

/-- A reader comes behind any of its events. -/
theorem exists_passes
    (r : Reader)
    (n : Nat) :
    ∃ r', Passes r (r.read.events.take n) r' := by
  induction r using read_induction generalizing n with
  | fault r e h =>
      refine ⟨r, ?_⟩
      rw [read_eq, h, List.take_nil]
      exact .here r
  | finish r h =>
      refine ⟨r, ?_⟩
      rw [read_eq, h, List.take_nil]
      exact .here r
  | event r e r' h ih =>
      cases n with
      | zero => exact ⟨r, .here r⟩
      | succ n =>
          obtain ⟨r'', hlater⟩ := ih n
          refine ⟨r'', ?_⟩
          rw [read_eq, h]
          exact .event h hlater

end Reader
end Markup
end PushGate
