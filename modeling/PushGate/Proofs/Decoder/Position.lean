import PushGate.Message.Decoder
import PushGate.Proofs.Markup.Nesting

/-!
# Positions in a document

What an event means to the decoder is settled by where it stands: how many elements are open before
it, which child of the root it stands in, and what has come directly in that child.  All of this is
said here of a position in the list of events, without going through the list.

**Results.**
* `depthAt_succ`: one event changes the depth by at most one.
* `childAt_unique`: at most one child of the root is open at a position.
* `contentOf_succ`: one event adds to the content of a child what stands directly in it.
-/

namespace PushGate

open Markup (Event)

namespace Markup
namespace Event

def isElement : Event → Bool
  | .start _ => true
  | .empty _ => true
  | _ => false

/-- Character data, or a CDATA section. -/
def isContent : Event → Bool
  | .text _ => true
  | .cdata _ => true
  | _ => false

end Event
end Markup

namespace Decoder

/-- The text that an event brings to a field, or what is wrong with it. -/
def readText : Event → Except Error (List Char)
  | .text content =>
      match Markup.characterData content with
      | .ok text => .ok text
      | .error e => .error (.malformed e)
  | .cdata content =>
      match Utf8.decode content with
      | .ok text => .ok text
      | .error e => .error (.notUtf8 e)
  | _ => .ok []

/-- The text that an event brings, as far as it can be read. -/
def textOf (e : Event) : List Char :=
  (readText e).toOption.getD []

/-- How many elements are open before the event at a position. -/
def depthAt (es : List Event) (i : Nat) : Nat :=
  (es.take i).countP Event.opens - (es.take i).countP Event.closes

/-- The start tag at `j` opens a child of the root, called `name`, that is open at `i`. -/
structure ChildAt (es : List Event) (j i : Nat) (name : Bytes) : Prop where
  start : es[j]? = some (.start name)
  before : j < i
  depth : depthAt es j = 1
  stillOpen : ∀ k, j < k → k ≤ i → 2 ≤ depthAt es k

/-- Position `i` is directly in the child that is opened at `j`, and the child is that of a
field. -/
def DirectlyIn (es : List Event) (j i : Nat) (f : Field) : Prop :=
  depthAt es i = 2 ∧
    ∃ name, ChildAt es j i name ∧ Field.ofTag (Markup.localName name) = some f

/-- The joined text that stands before `i` directly in the child that is opened at `j`. -/
def contentOf (es : List Event) (j i : Nat) : List Char :=
  ((List.range i).filter fun k => j < k ∧ depthAt es k = 2).flatMap fun k =>
    (es[k]?.map textOf).getD []

/-- In no initial part do the end tags outnumber the start tags. -/
def Balanced (es : List Event) : Prop :=
  ∀ i, (es.take i).countP Event.closes ≤ (es.take i).countP Event.opens

section Positions

variable {es : List Event} {i j : Nat} {e : Event} {name : Bytes}

theorem take_succ_of_getElem?
    (hi : es[i]? = some e) :
    es.take (i + 1) = es.take i ++ [e] := by
  rw [List.take_add_one, hi]
  rfl

theorem depthAt_zero : depthAt es 0 = 0 := by
  simp [depthAt]

/-- A start tag takes what follows one element deeper. -/
theorem depthAt_succ_of_opens
    (hbalanced : Balanced es)
    (hi : es[i]? = some e)
    (he : e.opens = true) :
    depthAt es (i + 1) = depthAt es i + 1 := by
  have hle := hbalanced i
  have hcloses : e.closes = false := by
    cases e with
    | start name => rfl
    | _ => cases he
  unfold depthAt
  rw [take_succ_of_getElem? hi]
  simp only [List.countP_append, List.countP_singleton, he, hcloses, if_true,
    Bool.false_eq_true, if_false]
  omega

/-- An end tag takes what follows one element out. -/
theorem depthAt_succ_of_closes
    (hi : es[i]? = some e)
    (he : e.closes = true) :
    depthAt es (i + 1) = depthAt es i - 1 := by
  have hopens : e.opens = false := by
    cases e with
    | stop name => rfl
    | _ => cases he
  unfold depthAt
  rw [take_succ_of_getElem? hi]
  simp only [List.countP_append, List.countP_singleton, he, hopens, if_true,
    Bool.false_eq_true, if_false]
  omega

theorem depthAt_pos_of_closes
    (hbalanced : Balanced es)
    (hi : es[i]? = some e)
    (he : e.closes = true) :
    0 < depthAt es i := by
  have hle := hbalanced (i + 1)
  have hopens : e.opens = false := by
    cases e with
    | stop name => rfl
    | _ => cases he
  rw [take_succ_of_getElem? hi] at hle
  simp only [List.countP_append, List.countP_singleton, he, hopens, if_true,
    Bool.false_eq_true, if_false] at hle
  unfold depthAt
  omega

/-- Other events leave the depth as it is. -/
theorem depthAt_succ_of_flat
    (hi : es[i]? = some e)
    (he : e.Flat) :
    depthAt es (i + 1) = depthAt es i := by
  unfold depthAt
  rw [take_succ_of_getElem? hi]
  simp only [List.countP_append, List.countP_singleton, he.1, he.2,
    Bool.false_eq_true, if_false, Nat.add_zero]

theorem childAt_of_start
    (hbalanced : Balanced es)
    (hi : es[i]? = some (.start name))
    (hdepth : depthAt es i = 1) :
    ChildAt es i (i + 1) name := by
  refine ⟨hi, Nat.lt_succ_self i, hdepth, ?_⟩
  intro k hik hki
  have hk : k = i + 1 := by omega
  have hopened := depthAt_succ_of_opens hbalanced hi rfl
  rw [hk]
  omega

/-- A child stays open as long as the depth does not fall below two. -/
theorem ChildAt.succ
    (h : ChildAt es j i name)
    (hdepth : 2 ≤ depthAt es (i + 1)) :
    ChildAt es j (i + 1) name := by
  refine ⟨h.start, Nat.lt_succ_of_lt h.before, h.depth, ?_⟩
  intro k hjk hki
  rcases Nat.lt_or_ge k (i + 1) with hlt | hge
  · exact h.stillOpen k hjk (Nat.le_of_lt_succ hlt)
  · have hk : k = i + 1 := by omega
    rw [hk]
    exact hdepth

/-- At most one child of the root is open at a position. -/
theorem childAt_unique
    {j' : Nat}
    {name' : Bytes}
    (h : ChildAt es j i name)
    (h' : ChildAt es j' i name') :
    j = j' ∧ name = name' := by
  have hj : j = j' := by
    rcases Nat.lt_trichotomy j j' with hlt | heq | hgt
    · have := h.stillOpen j' hlt (Nat.le_of_lt h'.before)
      have := h'.depth
      omega
    · exact heq
    · have := h'.stillOpen j hgt (Nat.le_of_lt h.before)
      have := h.depth
      omega
  refine ⟨hj, ?_⟩
  have hstart := h.start
  rw [hj, h'.start] at hstart
  cases hstart
  rfl

/-- Nothing stands in a child that has just been opened. -/
theorem contentOf_start : contentOf es j (j + 1) = [] := by
  rw [contentOf, List.flatMap_eq_nil_iff]
  intro k hk
  rw [List.mem_filter, List.mem_range] at hk
  obtain ⟨hlt, hgt⟩ := hk
  rw [decide_eq_true_eq] at hgt
  omega

theorem contentOf_succ
    (hi : es[i]? = some e)
    (hji : j < i) :
    contentOf es j (i + 1) =
      contentOf es j i ++ if depthAt es i = 2 then textOf e else [] := by
  rw [contentOf, contentOf]
  rw [List.range_succ, List.filter_append, List.flatMap_append]
  congr 1
  by_cases hdepth : depthAt es i = 2
  · simp [hji, hdepth, hi]
  · simp [hdepth]

/-- An event without text adds nothing. -/
theorem contentOf_succ_of_silent
    (hi : es[i]? = some e)
    (hji : j < i)
    (he : textOf e = []) :
    contentOf es j (i + 1) = contentOf es j i := by
  rw [contentOf_succ hi hji, he]
  simp

end Positions

end Decoder
end PushGate
