import PushGate.Proofs.Push.References
import PushGate.Proofs.Utf8.Strict

/-!
# What character data stands for

Character data is the bytes of a text, in which references stand for characters.  Which text it stands
for is a relation between lists of characters (`Resolves`); where the faults stand, and how long the
whole is, has no part in it.

Characters that belong to no reference stand for themselves, before and behind any character data: a
reference cannot reach into them, nor a character begin in other bytes and end in theirs.

**Results.**
* `resolve_eq_ok_iff`: what a text stands for.
* `characterData_surround`: characters that belong to no reference, put around character data.
-/

namespace PushGate
namespace Markup

open Utf8 (encode)

namespace Reference

/-- A text stands for another, reference by reference. -/
inductive Resolves : List Char → List Char → Prop
  | nil : Resolves [] []
  | plain
      {c : Char} {text t : List Char}
      (noReference : c ≠ '&')
      (later : Resolves text t) :
      Resolves (c :: text) (c :: t)
  | reference
      {name text t : List Char} {c : Char}
      (inner : ∀ d ∈ name, isInner d = true)
      (value : ∀ start stop, character start stop name = .ok c)
      (later : Resolves text t) :
      Resolves ('&' :: (name ++ ';' :: text)) (c :: t)

section Texts

variable {size index : Nat} {done text t u w : List Char}

theorem character_number
    (start stop : Nat)
    (digits : List Char) :
    character start stop ('#' :: digits) =
      match code digits with
      | .ok n =>
          if n = 0 then .error (.null start stop)
          else if n.isValidChar then .ok (Char.ofNat n)
          else .error (.noCharacter n)
      | .error e => .error e := by
  rw [character]
  cases code digits <;> rfl

theorem character_name
    {name : List Char}
    (h : ∀ digits, name ≠ '#' :: digits)
    (start stop : Nat) :
    character start stop name =
      match named? name with
      | some c => .ok c
      | none => .error (.unknown (start + 1) stop (String.ofList name)) := by
  unfold character
  split
  · exact absurd rfl (h _)
  · rfl

/-- Which character a reference stands for does not depend on where it stands. -/
theorem character_congr
    {start stop : Nat}
    {name : List Char}
    {c : Char}
    (h : character start stop name = .ok c)
    (start' stop' : Nat) :
    character start' stop' name = .ok c := by
  by_cases hname : ∃ digits, name = '#' :: digits
  · obtain ⟨digits, rfl⟩ := hname
    rw [character_number] at h ⊢
    cases hcode : code digits with
    | error e => simp [hcode] at h
    | ok n =>
        simp only [hcode] at h ⊢
        by_cases hn : n = 0
        · simp [hn] at h
        · rwa [if_neg hn] at h ⊢
  · have hname' : ∀ digits, name ≠ '#' :: digits := fun digits heq => hname ⟨digits, heq⟩
    rw [character_name hname'] at h ⊢
    cases hnamed : named? name with
    | none => simp [hnamed] at h
    | some d => simpa [hnamed] using h

theorem resolves_of_resolveFrom
    (h : resolveFrom size index done text = .ok u) :
    ∃ t, u = done.reverse ++ t ∧ Resolves text t := by
  fun_induction resolveFrom size index done text with
  | case1 index done =>
      cases h
      exact ⟨[], (List.append_nil _).symm, .nil⟩
  | case2 index done text rest hdrop name stop c hcharacter ih =>
      obtain ⟨t, rfl, ht⟩ := ih h
      refine ⟨c :: t, by simp, ?_⟩
      have hsplit : text = name ++ ';' :: rest := by
        rw [← hdrop]
        exact List.takeWhile_append_dropWhile.symm
      rw [hsplit]
      exact .reference (List.all_eq_true.1 List.all_takeWhile) (character_congr hcharacter) ht
  | case3 => cases h
  | case4 => cases h
  | case5 index done c text hc ih =>
      obtain ⟨t, rfl, ht⟩ := ih h
      exact ⟨c :: t, by simp, .plain hc ht⟩

theorem Resolves.resolveFrom_eq
    (h : Resolves text t) :
    resolveFrom size index done text = .ok (done.reverse ++ t) := by
  induction h generalizing index done with
  | nil => simp [resolveFrom]
  | plain noReference later ih =>
      rw [resolveFrom, if_neg noReference, ih]
      simp
  | reference inner value later ih =>
      obtain ⟨next, hnext⟩ := resolveFrom_inner inner value
      rw [hnext, ih]
      simp

/-- What a text stands for. -/
theorem resolve_eq_ok_iff :
    resolve text = .ok t ↔ Resolves text t := by
  constructor
  · intro h
    obtain ⟨t, rfl, ht⟩ := resolves_of_resolveFrom h
    exact ht
  · intro h
    exact h.resolveFrom_eq

theorem Resolves.append
    (h : Resolves text t)
    (h' : Resolves w u) :
    Resolves (text ++ w) (t ++ u) := by
  induction h with
  | nil => exact h'
  | plain noReference later ih => exact .plain noReference ih
  | reference inner value later ih =>
      rw [List.cons_append, List.append_assoc, List.cons_append]
      exact .reference inner value ih

/-- Characters that belong to no reference. -/
def Inert (w : List Char) : Prop :=
  ∀ c ∈ w, isInner c = true

theorem Inert.not_mem
    {c : Char}
    (h : Inert w)
    (hc : isInner c = false) :
    c ∉ w := by
  intro hmem
  rw [h c hmem] at hc
  cases hc

theorem Inert.resolves
    (h : Inert w) :
    Resolves w w :=
  resolve_eq_ok_iff.1 (resolve_plain w (h.not_mem rfl))

theorem Inert.eq_of_resolves
    (h : Inert w)
    (hw : Resolves w u) :
    u = w := by
  have hresolve := resolve_eq_ok_iff.2 hw
  rw [resolve_eq_ok_iff.2 h.resolves] at hresolve
  exact (Except.ok.inj hresolve).symm

/-- No reference begins in characters that belong to none. -/
theorem Resolves.of_append_left
    (hw : Inert w)
    (h : Resolves (w ++ text) u) :
    ∃ t, Resolves text t ∧ u = w ++ t := by
  induction w generalizing u with
  | nil => exact ⟨u, h, rfl⟩
  | cons c w ih =>
      have hrest : Inert w := fun d hd => hw d (List.mem_cons_of_mem c hd)
      generalize hv : c :: w ++ text = v at h
      cases h with
      | nil => cases hv
      | plain noReference later =>
          cases hv
          obtain ⟨t, ht, rfl⟩ := ih hrest later
          exact ⟨t, ht, rfl⟩
      | reference inner value later =>
          obtain ⟨rfl, -⟩ := List.cons.inj hv
          exact absurd List.mem_cons_self (hw.not_mem rfl)

/-- No reference reaches into characters that belong to none. -/
theorem Resolves.of_append_right
    (hw : Inert w)
    (h : Resolves (text ++ w) u) :
    ∃ t, Resolves text t ∧ u = t ++ w := by
  generalize hv : text ++ w = v at h
  induction h generalizing text with
  | nil =>
      obtain ⟨rfl, rfl⟩ := List.append_eq_nil_iff.1 hv
      exact ⟨[], .nil, rfl⟩
  | plain noReference later ih =>
      cases text with
      | nil =>
          refine ⟨[], .nil, hw.eq_of_resolves ?_⟩
          rw [List.nil_append] at hv
          exact hv ▸ .plain noReference later
      | cons c text =>
          obtain ⟨rfl, hrest⟩ := List.cons.inj hv
          obtain ⟨t, ht, rfl⟩ := ih hrest
          exact ⟨_, .plain noReference ht, rfl⟩
  | reference inner value later ih =>
      cases text with
      | nil =>
          rw [List.nil_append] at hv
          exact absurd (hv ▸ List.mem_cons_self) (hw.not_mem (c := '&') rfl)
      | cons c text =>
          obtain ⟨rfl, hrest⟩ := List.cons.inj hv
          -- the semicolon that ends the reference stands in the text
          rcases List.append_eq_append_iff.1 hrest with ⟨front, -, hsplit⟩ | ⟨front, rfl, hsplit⟩
          · have hmem : ';' ∈ w := hsplit ▸ List.mem_append_right front List.mem_cons_self
            exact absurd hmem (hw.not_mem rfl)
          · cases front with
            | nil =>
                rw [List.nil_append] at hsplit
                have hmem : ';' ∈ w := hsplit ▸ List.mem_cons_self
                exact absurd hmem (hw.not_mem rfl)
            | cons d front =>
                obtain ⟨rfl, hbehind⟩ := List.cons.inj hsplit
                obtain ⟨t, ht, rfl⟩ := ih hbehind.symm
                exact ⟨_, .reference inner value ht, rfl⟩

theorem Resolves.eq_nil
    (h : Resolves text []) :
    text = [] := by
  cases h
  rfl

end Texts

end Reference

open Reference (Resolves Inert)

section CharacterData

variable {content : Bytes} {t u before after : List Char}

/-- What character data stands for. -/
theorem characterData_eq_ok_iff :
    characterData content = .ok t ↔ ∃ text, content = encode text ∧ Resolves text t := by
  rw [characterData]
  constructor
  · intro h
    cases hdecode : Utf8.decode content with
    | error e =>
        rw [hdecode] at h
        cases h
    | ok text =>
        rw [hdecode] at h
        refine ⟨text, Utf8.decode_eq_ok_iff.1 hdecode, Reference.resolve_eq_ok_iff.1 ?_⟩
        change (Reference.resolve text).mapError _ = .ok t at h
        cases hresolve : Reference.resolve text with
        | error e =>
            rw [hresolve] at h
            cases h
        | ok t =>
            rw [hresolve] at h
            cases h
            rfl
  · rintro ⟨text, rfl, htext⟩
    rw [Utf8.decode_encode]
    change (Reference.resolve text).mapError _ = .ok t
    rw [Reference.resolve_eq_ok_iff.2 htext]
    rfl

/-- Characters that belong to no reference stand for themselves around character data, and do not
make it sound or faulty. -/
theorem characterData_surround
    (hbefore : Inert before)
    (hafter : Inert after) :
    characterData (encode before ++ (content ++ encode after)) = .ok u ↔
      ∃ t, characterData content = .ok t ∧ u = before ++ (t ++ after) := by
  constructor
  · intro h
    obtain ⟨text, htext, hresolves⟩ := characterData_eq_ok_iff.1 h
    obtain ⟨inner, rfl⟩ : before <+: text :=
      Utf8.encode_prefix_iff.1 ⟨content ++ encode after, htext⟩
    rw [Utf8.encode_append] at htext
    obtain ⟨middle, rfl, rfl⟩ :=
      Utf8.exists_of_append_encode (List.append_cancel_left htext)
    obtain ⟨rest, hrest, rfl⟩ := hresolves.of_append_left hbefore
    obtain ⟨t, ht, rfl⟩ := hrest.of_append_right hafter
    exact ⟨t, characterData_eq_ok_iff.2 ⟨middle, rfl, ht⟩, rfl⟩
  · rintro ⟨t, ht, rfl⟩
    obtain ⟨text, rfl, hresolves⟩ := characterData_eq_ok_iff.1 ht
    refine characterData_eq_ok_iff.2 ⟨before ++ (text ++ after), ?_, ?_⟩
    · rw [Utf8.encode_append, Utf8.encode_append]
    · exact hbefore.resolves.append (hresolves.append hafter.resolves)

/-- Character data stands for no text only if it is empty. -/
theorem eq_nil_of_characterData
    (h : characterData content = .ok []) :
    content = [] := by
  obtain ⟨text, rfl, hresolves⟩ := characterData_eq_ok_iff.1 h
  rw [hresolves.eq_nil, Utf8.encode_nil]

end CharacterData

end Markup
end PushGate
