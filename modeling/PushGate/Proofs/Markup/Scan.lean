import Mathlib.Data.List.Basic
import Mathlib.Data.List.TakeWhile
import PushGate.Markup.Reader

/-!
# Scans

The reader delimits a piece of markup by a scan: for a mark, for a `>` that closes, or for a word.
What a scan finds stands in an initial part of the bytes that are to come.  What follows that part
is left over, and where some of it is missing nothing is found.

An end tag and an instruction are delimited otherwise: they end with the first `>`, or with the
input if there is none.

**Results.**
* `breakOn_foundIn`, `breakAtClosing_foundIn`, `after?_foundIn`: a scan uses what it finds.
* `takeWhile_closed`, `takeWhile_unclosed`: what stands before the first `>`.
* `trimName_append`: white space at the end has no part in a name.
-/

namespace PushGate
namespace Markup

/-- What a scan finds stands in the bytes `used`, and it needs all of them: what follows them is
left over, and nothing is found where some of them are missing. -/
structure FoundIn
    {α : Type}
    (scan : Bytes → Option (α × Bytes))
    (used : Bytes)
    (a : α) : Prop where
  found : ∀ more, scan (used ++ more) = some (a, more)
  needed : ∀ part missing, used = part ++ missing → missing ≠ [] → scan part = none

section Scans

variable {mark done bytes before rest : Bytes}

theorem breakOn_of_prefix
    {b : UInt8}
    {more : Bytes} :
    breakOn (b :: mark) done (b :: mark ++ more) = some (done.reverse, more) := by
  have hpre : (b :: mark).isPrefixOf (b :: (mark ++ more)) = true := by
    rw [List.isPrefixOf_iff_prefix]
    exact List.prefix_append ..
  rw [List.cons_append, breakOn, if_pos hpre]
  simp

theorem breakOn_cons
    {more : Bytes}
    {a : UInt8}
    (h : ¬ mark <+: a :: more) :
    breakOn mark done (a :: more) = breakOn mark (a :: done) more := by
  rw [breakOn, if_neg fun hpre => h (List.isPrefixOf_iff_prefix.1 hpre)]

theorem breakOn_of_length_lt
    (h : bytes.length < mark.length) :
    breakOn mark done bytes = none := by
  induction bytes generalizing done with
  | nil => rfl
  | cons b bytes ih =>
      have hpre : ¬ mark <+: b :: bytes := fun hpre => Nat.not_le_of_lt h hpre.length_le
      rw [breakOn_cons hpre]
      exact ih (Nat.lt_of_succ_lt h)

theorem length_lt_of_append
    {part missing : Bytes}
    (h : bytes = part ++ missing)
    (hmissing : missing ≠ []) :
    part.length < bytes.length := by
  have := List.length_pos_iff.2 hmissing
  rw [h, List.length_append]
  omega

/-- The bytes up to the first mark, and the mark. -/
theorem breakOn_foundIn
    (hmark : mark ≠ [])
    (h : breakOn mark done bytes = some (before, rest)) :
    ∃ used, bytes = used ++ rest ∧ FoundIn (breakOn mark done) used before := by
  induction bytes generalizing done with
  | nil => cases h
  | cons b bytes ih =>
      by_cases hpre : mark <+: b :: bytes
      · obtain ⟨more, hmore⟩ := hpre
        obtain ⟨m, mark, rfl⟩ := List.exists_cons_of_ne_nil hmark
        rw [← hmore, breakOn_of_prefix] at h
        cases h
        refine ⟨m :: mark, hmore.symm, fun _ => breakOn_of_prefix, ?_⟩
        intro part missing hused hmissing
        exact breakOn_of_length_lt (length_lt_of_append hused hmissing)
      · rw [breakOn_cons hpre] at h
        obtain ⟨used, rfl, hfound⟩ := ih h
        have hlength : mark.length ≤ used.length := by
          refine Nat.not_lt.1 fun hlt => ?_
          have hfound := hfound.found []
          rw [List.append_nil, breakOn_of_length_lt hlt] at hfound
          cases hfound
        -- a mark at the front would end inside the used bytes, so it would be there already
        have hfront : ¬ mark <+: b :: used := fun hpre' =>
          hpre (hpre'.trans (List.prefix_append (b :: used) rest))
        have hlate : ∀ more, ¬ mark <+: b :: (used ++ more) := by
          intro more hpre'
          refine hfront (List.prefix_of_prefix_length_le hpre' ?_ ?_)
          · exact List.prefix_append (b :: used) more
          · exact Nat.le_succ_of_le hlength
        refine ⟨b :: used, rfl, ?_, ?_⟩
        · intro more
          rw [List.cons_append, breakOn_cons (hlate more)]
          exact hfound.found more
        · intro part missing hused hmissing
          cases part with
          | nil => rfl
          | cons a part =>
              obtain ⟨rfl, rfl⟩ := List.cons.inj hused
              have hpart : ¬ mark <+: b :: part := fun hpre' =>
                hfront (hpre'.trans (List.prefix_append (b :: part) missing))
              rw [breakOn_cons hpart]
              exact hfound.needed part missing rfl hmissing

/-- The bytes up to the first `>` that closes, and this. -/
theorem breakAtClosing_foundIn
    {σ : Type}
    {step : σ → UInt8 → σ}
    {closes : σ → Bool}
    {s : σ}
    (h : breakAtClosing step closes s done bytes = some (before, rest)) :
    ∃ used, bytes = used ++ rest ∧ FoundIn (breakAtClosing step closes s done) used before := by
  induction bytes generalizing s done with
  | nil => cases h
  | cons b bytes ih =>
      rw [breakAtClosing] at h
      by_cases hcloses : (b == closing && closes s) = true
      · rw [if_pos hcloses] at h
        cases h
        refine ⟨[b], rfl, ?_, ?_⟩
        · intro more
          rw [List.singleton_append, breakAtClosing, if_pos hcloses]
        · intro part missing hused hmissing
          have hpart : part = [] :=
            List.length_eq_zero_iff.1 (Nat.lt_one_iff.1 (length_lt_of_append hused hmissing))
          rw [hpart]
          rfl
      · rw [if_neg hcloses] at h
        obtain ⟨used, rfl, hfound⟩ := ih h
        refine ⟨b :: used, rfl, ?_, ?_⟩
        · intro more
          rw [List.cons_append, breakAtClosing, if_neg hcloses]
          exact hfound.found more
        · intro part missing hused hmissing
          cases part with
          | nil => rfl
          | cons a part =>
              obtain ⟨rfl, rfl⟩ := List.cons.inj hused
              rw [breakAtClosing, if_neg hcloses]
              exact hfound.needed part missing rfl hmissing

theorem after?_eq_some_iff
    {word : String} :
    after? word bytes = some rest ↔
      ∃ written, bytes = written ++ rest ∧
        written.map lowerByte = (Utf8.ofString word).map lowerByte := by
  constructor
  · intro h
    simp only [after?] at h
    split at h
    · rename_i hword
      cases h
      exact ⟨_, (List.take_append_drop _ bytes).symm, hword⟩
    · cases h
  · rintro ⟨written, rfl, hword⟩
    have hlength : written.length = (Utf8.ofString word).length := by
      simpa using congrArg List.length hword
    rw [after?, if_pos]
    · rw [← hlength, List.drop_left]
    · rw [← hlength, List.take_left, hword]

/-- A scan behind a word uses the word as well. -/
theorem after?_foundIn
    {α : Type}
    {scan : Bytes → Option (α × Bytes)}
    {word : String}
    {a : α}
    (hscan : ∀ bytes, scan bytes = some (a, rest) →
      ∃ used, bytes = used ++ rest ∧ FoundIn scan used a)
    (h : (after? word bytes).bind scan = some (a, rest)) :
    ∃ used, bytes = used ++ rest ∧
      FoundIn (fun bytes => (after? word bytes).bind scan) used a := by
  obtain ⟨inner, hinner, hfound⟩ := Option.bind_eq_some_iff.1 h
  obtain ⟨written, rfl, hword⟩ := after?_eq_some_iff.1 hinner
  obtain ⟨used, rfl, hused⟩ := hscan inner hfound
  have hafter : ∀ more, after? word (written ++ more) = some more :=
    fun more => after?_eq_some_iff.2 ⟨written, rfl, hword⟩
  refine ⟨written ++ used, (List.append_assoc ..).symm, ?_, ?_⟩
  · intro more
    rw [List.append_assoc, hafter, Option.bind_some]
    exact hused.found more
  · intro part missing hpart hmissing
    rcases List.append_eq_append_iff.1 hpart with ⟨part', rfl, hpart'⟩ | ⟨lacking, rfl, hlacking⟩
    · simp only [hafter, Option.bind_some]
      exact hused.needed part' missing hpart' hmissing
    · cases lacking with
      | nil =>
          have hnone : scan [] = none := hused.needed [] missing hlacking.symm hmissing
          have hbehind : after? word part = some [] := by
            simpa using hafter []
          simp only [hbehind, Option.bind_some, hnone]
      | cons b lacking =>
          have hnone : after? word part = none := by
            rw [Option.eq_none_iff_forall_ne_some]
            intro rest hsome
            obtain ⟨written', rfl, hword'⟩ := after?_eq_some_iff.1 hsome
            have hlength := congrArg List.length (hword.trans hword'.symm)
            simp only [List.length_map, List.length_append, List.length_cons] at hlength
            omega
          simp only [hnone, Option.bind_none]

end Scans

section Closing

variable {content part missing : Bytes}

theorem bne_closing_of_not_mem
    (h : closing ∉ content) :
    ∀ b ∈ content, (b != closing) = true := by
  intro b hb
  rw [bne_iff_ne]
  rintro rfl
  exact h hb

theorem takeWhile_closed
    (h : closing ∉ content)
    (more : Bytes) :
    (content ++ closing :: more).takeWhile (· != closing) = content := by
  rw [List.takeWhile_append_of_pos (bne_closing_of_not_mem h)]
  simp

theorem dropWhile_closed
    (h : closing ∉ content)
    (more : Bytes) :
    (content ++ closing :: more).dropWhile (· != closing) = closing :: more := by
  rw [List.dropWhile_append_of_pos (bne_closing_of_not_mem h)]
  simp

theorem takeWhile_unclosed
    (h : closing ∉ content) :
    content.takeWhile (· != closing) = content :=
  List.takeWhile_eq_self_iff.2 (bne_closing_of_not_mem h)

theorem dropWhile_unclosed
    (h : closing ∉ content) :
    content.dropWhile (· != closing) = [] :=
  List.dropWhile_eq_nil_iff.2 (bne_closing_of_not_mem h)

/-- What is cut off bytes that end with a `>` ends with it, and the rest is cut off before it. -/
theorem cut_closed
    (h : content ++ [closing] = part ++ missing)
    (hmissing : missing ≠ []) :
    ∃ lost, content = part ++ lost ∧ missing = lost ++ [closing] := by
  obtain ⟨lost, b, rfl⟩ := (List.eq_nil_or_concat' missing).resolve_left hmissing
  rw [← List.append_assoc] at h
  obtain ⟨hcontent, hb⟩ := List.append_inj' h rfl
  cases hb
  exact ⟨lost, hcontent, rfl⟩

/-- A trimmed name is the name without white space at its end. -/
theorem trimName_append_blanks
    (bytes : Bytes) :
    ∃ blanks, (∀ b ∈ blanks, isBlankByte b = true) ∧ bytes = trimName bytes ++ blanks := by
  have hsplit := List.takeWhile_append_dropWhile (p := isBlankByte) (l := bytes.reverse)
  rw [trimName]
  split
  · refine ⟨[], ?_, (List.append_nil _).symm⟩
    intro b hb
    cases hb
  · refine ⟨(bytes.reverse.takeWhile isBlankByte).reverse, ?_, ?_⟩
    · intro b hb
      exact List.mem_takeWhile_imp (List.mem_reverse.1 hb)
    · rw [← List.reverse_append, hsplit, List.reverse_reverse]

/-- White space at the end has no part in a trimmed name, unless there is nothing else. -/
theorem trimName_append
    {blanks : Bytes}
    (hpart : ∃ b ∈ part, isBlankByte b = false)
    (hblanks : ∀ b ∈ blanks, isBlankByte b = true) :
    trimName (part ++ blanks) = trimName part := by
  have hdrop :
      (part ++ blanks).reverse.dropWhile isBlankByte = part.reverse.dropWhile isBlankByte := by
    rw [List.reverse_append]
    apply List.dropWhile_append_of_pos
    intro b hb
    exact hblanks b (List.mem_reverse.1 hb)
  have hne : part.reverse.dropWhile isBlankByte ≠ [] := by
    obtain ⟨b, hb, hblank⟩ := hpart
    rw [Ne, List.dropWhile_eq_nil_iff]
    intro hall
    rw [hall b (List.mem_reverse.2 hb)] at hblank
    cases hblank
  rw [trimName, trimName, hdrop]
  split
  · rename_i hnil
    exact absurd hnil hne
  · rfl

end Closing

end Markup
end PushGate
