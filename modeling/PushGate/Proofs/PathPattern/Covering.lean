import Mathlib.Data.List.Basic
import Mathlib.Data.List.TakeWhile
import PushGate.PathPattern

/-!
# Written patterns and the paths that they cover

Which paths a written pattern covers is said here without its parts: each character stands for
itself, `:name` for what comes up to the next slash or the end, and `*name`, at the end, for all the
rest.  A place must have something before it on the path, if only the slash at which it ends.

A written pattern is read into parts, and a path is matched with these.  That comes to the same.

**Results.**
* `covers_append_iff`, `covers_parameter_iff`, `covers_remainder_iff`: the paths that are covered, by
  what the pattern begins with.
* `accepts_iff_covers`: the parts of a pattern accept the paths that the written pattern covers.
* `isLost_iff`: which path is lost beside a fixed one.
-/

namespace PushGate
namespace PathPattern

/-- A segment has come to its end before a text: the text begins with a slash or is empty. -/
def AtSegmentEnd (text : List Char) : Prop :=
  ∀ c ∈ text.head?, c = '/'

/-- A written pattern covers a path. -/
inductive Covers :
    (pattern path : List Char) → Prop
  | nil :
      Covers [] []
  | plain
      {c : Char} {pattern path : List Char}
      (unmarked : isMark c = false)
      (rest : Covers pattern path) :
      Covers (c :: pattern) (c :: path)
  | parameter
      {name pattern value path : List Char}
      (name_inside : '/' ∉ name)
      (name_ends : AtSegmentEnd pattern)
      (value_inside : '/' ∉ value)
      (value_ends : AtSegmentEnd path)
      (something : value ++ path ≠ [])
      (rest : Covers pattern path) :
      Covers (':' :: (name ++ pattern)) (value ++ path)
  | remainder
      {name path : List Char}
      (name_inside : '/' ∉ name)
      (something : path ≠ []) :
      Covers ('*' :: name) path

section Segments

variable {segment rest : List Char}

theorem forall_ne_slash
    (h : '/' ∉ segment) :
    ∀ c ∈ segment, (c != '/') = true := by
  intro c hc
  rw [bne_iff_ne]
  rintro rfl
  exact h hc

theorem dropWhile_segment
    (h : '/' ∉ segment)
    (hrest : AtSegmentEnd rest) :
    (segment ++ rest).dropWhile (· != '/') = rest := by
  rw [List.dropWhile_append_of_pos (forall_ne_slash h)]
  cases rest with
  | nil => rfl
  | cons c rest =>
      rw [hrest c rfl]
      simp

/-- Every text is a segment and what follows it. -/
theorem exists_segment
    (text : List Char) :
    ∃ segment, '/' ∉ segment ∧ AtSegmentEnd (text.dropWhile (· != '/')) ∧
      segment ++ text.dropWhile (· != '/') = text := by
  refine ⟨text.takeWhile (· != '/'), ?_, ?_, List.takeWhile_append_dropWhile⟩
  · intro hslash
    have := List.mem_takeWhile_imp hslash
    simp at this
  · intro c hc
    have hstop := List.head?_dropWhile_not (· != '/') text
    rw [Option.mem_def.1 hc] at hstop
    simpa using hstop

end Segments

section Beginnings

variable {pattern path : List Char}

theorem covers_nil_iff :
    Covers [] path ↔ path = [] := by
  constructor
  · rintro ⟨⟩
    rfl
  · rintro rfl
    exact .nil

theorem covers_cons_iff
    {c : Char}
    (hc : isMark c = false) :
    Covers (c :: pattern) path ↔ ∃ rest, path = c :: rest ∧ Covers pattern rest := by
  constructor
  · intro h
    cases h with
    | plain _ hrest => exact ⟨_, rfl, hrest⟩
    | parameter => simp [isMark] at hc
    | remainder => simp [isMark] at hc
  · rintro ⟨rest, rfl, hrest⟩
    exact .plain hc hrest

/-- Characters that open no place stand for themselves. -/
theorem covers_append_iff
    {literal : List Char}
    (h : ∀ c ∈ literal, isMark c = false) :
    Covers (literal ++ pattern) path ↔ ∃ rest, path = literal ++ rest ∧ Covers pattern rest := by
  induction literal generalizing path with
  | nil => simp
  | cons c literal ih =>
      obtain ⟨hc, hliteral⟩ := List.forall_mem_cons.1 h
      rw [List.cons_append, covers_cons_iff hc]
      constructor
      · rintro ⟨_, rfl, hcovers⟩
        obtain ⟨rest, rfl, hrest⟩ := (ih hliteral).1 hcovers
        exact ⟨rest, rfl, hrest⟩
      · rintro ⟨rest, rfl, hrest⟩
        exact ⟨literal ++ rest, rfl, (ih hliteral).2 ⟨rest, rfl, hrest⟩⟩

theorem covers_iff_takeWhile :
    Covers pattern path ↔
      ∃ rest, path = (pattern.takeWhile fun c => !isMark c) ++ rest ∧
        Covers (pattern.dropWhile fun c => !isMark c) rest := by
  have hplain : ∀ c ∈ pattern.takeWhile fun c => !isMark c, isMark c = false := by
    intro c hc
    simpa using List.mem_takeWhile_imp hc
  rw [← covers_append_iff hplain, List.takeWhile_append_dropWhile]

/-- A place `:name` stands for a segment. -/
theorem covers_parameter_iff :
    Covers (':' :: pattern) path ↔
      path ≠ [] ∧ Covers (pattern.dropWhile (· != '/')) (path.dropWhile (· != '/')) := by
  constructor
  · intro h
    cases h with
    | plain hc _ => simp [isMark] at hc
    | parameter hname hpattern hvalue hpath hsome hrest =>
        rw [dropWhile_segment hname hpattern, dropWhile_segment hvalue hpath]
        exact ⟨hsome, hrest⟩
  · rintro ⟨hsome, hrest⟩
    obtain ⟨name, hname, hpattern, hwhole⟩ := exists_segment pattern
    obtain ⟨value, hvalue, hpath, hpathWhole⟩ := exists_segment path
    rw [← hwhole, ← hpathWhole]
    rw [← hpathWhole] at hsome
    exact .parameter hname hpattern hvalue hpath hsome hrest

/-- A place `*name` stands for all the rest, if it is the last. -/
theorem covers_remainder_iff :
    Covers ('*' :: pattern) path ↔ '/' ∉ pattern ∧ path ≠ [] := by
  constructor
  · intro h
    cases h with
    | plain hc _ => simp [isMark] at hc
    | remainder hname hsome => exact ⟨hname, hsome⟩
  · rintro ⟨hname, hsome⟩
    exact .remainder hname hsome

end Beginnings

section Parts

/-- What stands before the first place has to stand at the beginning of the path. -/
theorem accepts_fixedPart_append
    {text path : List Char}
    {parts : PathPattern} :
    accepts (fixedPart text ++ parts) path = true ↔
      ∃ rest, path = (text.takeWhile fun c => !isMark c) ++ rest ∧
        accepts parts rest = true := by
  rw [fixedPart]
  split
  · rename_i hnone
    simp [hnone]
  · simp only [List.singleton_append, accepts, Bool.and_eq_true, List.isPrefixOf_iff_prefix]
    constructor
    · rintro ⟨⟨rest, rfl⟩, hrest⟩
      rw [List.drop_left] at hrest
      exact ⟨rest, rfl, hrest⟩
    · rintro ⟨rest, rfl, hrest⟩
      rw [List.drop_left]
      exact ⟨⟨rest, rfl⟩, hrest⟩

theorem exists_of_bind_eq_ok
    {ε α β : Type}
    {a : Except ε α}
    {f : α → β}
    {b : β}
    (h : (do let value ← a; pure (f value)) = Except.ok b) :
    ∃ value, a = .ok value ∧ b = f value := by
  cases a with
  | error e => cases h
  | ok value => exact ⟨value, rfl, (Except.ok.inj h).symm⟩

theorem takeWhile_eq_nil_of_fixedPart
    {text : List Char}
    (h : fixedPart text = []) :
    (text.takeWhile fun c => !isMark c) = [] := by
  rw [fixedPart] at h
  split at h
  · assumption
  · cases h

/-- Only the empty text has no parts. -/
theorem parts_eq_nil_iff
    {room : Nat}
    {text : List Char}
    {pattern : PathPattern}
    (h : parts room text = .ok pattern) :
    pattern = [] ↔ text = [] := by
  constructor
  · rintro rfl
    fun_induction parts room text with
    | case1 room text hnone =>
        have hliteral := takeWhile_eq_nil_of_fixedPart (Except.ok.inj h)
        rw [← List.takeWhile_append_dropWhile (p := fun c => !isMark c) (l := text), hliteral, hnone]
        rfl
    | case2 | case3 | case4 => cases h
    | case5 | case6 =>
        obtain ⟨others, -, hparts⟩ := exists_of_bind_eq_ok h
        simp at hparts
  · rintro rfl
    rw [parts] at h
    exact (Except.ok.inj h).symm

/-- The parts of a pattern accept the paths that the written pattern covers. -/
theorem accepts_iff_covers_of_parts
    {room : Nat}
    {text path : List Char}
    {pattern : PathPattern}
    (h : parts room text = .ok pattern) :
    accepts pattern path = true ↔ Covers text path := by
  fun_induction parts room text generalizing pattern path with
  | case1 room text hnone =>
      obtain rfl := Except.ok.inj h
      rw [← List.append_nil (fixedPart text), accepts_fixedPart_append, covers_iff_takeWhile, hnone]
      simp only [accepts, List.isEmpty_iff, covers_nil_iff]
  | case2 | case3 | case4 => cases h
  | case5 room text rest name _ _ _ hopens =>
      rename_i ih
      obtain ⟨others, hothers, rfl⟩ := exists_of_bind_eq_ok h
      rw [accepts_fixedPart_append, covers_iff_takeWhile, hopens]
      simp only [covers_parameter_iff, accepts, ih hothers, Bool.and_eq_true,
        Bool.not_eq_true', List.isEmpty_eq_false_iff]
  | case6 room text mark rest hopens name _ _ hmark =>
      rename_i ih
      obtain ⟨others, hothers, rfl⟩ := exists_of_bind_eq_ok h
      have hstar : mark = '*' := by
        have hnot := List.head?_dropWhile_not (fun c => !isMark c) text
        rw [hopens] at hnot
        simp [isMark] at hnot
        exact hnot hmark
      subst hstar
      have hlast : others = [] ↔ '/' ∉ rest := by
        rw [parts_eq_nil_iff hothers, List.dropWhile_eq_nil_iff]
        constructor
        · intro hall hslash
          exact absurd (hall _ hslash) (by decide)
        · exact forall_ne_slash
      rw [accepts_fixedPart_append, covers_iff_takeWhile, hopens]
      simp only [covers_remainder_iff, accepts, ← hlast, List.isEmpty_iff, Bool.and_eq_true,
        Bool.not_eq_true', List.isEmpty_eq_false_iff]

theorem parts_of_parse
    {fixed text : String}
    {pattern : PathPattern}
    (h : parse fixed text = .ok pattern) :
    parts maxParameters text.toList = .ok pattern := by
  rw [parse] at h
  cases hparts : parts maxParameters text.toList with
  | error e =>
      rw [hparts] at h
      cases h
  | ok pattern' =>
      simp only [hparts, bind, Except.bind] at h
      split at h
      · exact h
      · cases h

/-- A pattern that has been read accepts the paths that it covers as it was written. -/
theorem accepts_iff_covers
    {fixed text : String}
    {pattern : PathPattern}
    (h : parse fixed text = .ok pattern)
    (path : List Char) :
    accepts pattern path = true ↔ Covers text.toList path :=
  accepts_iff_covers_of_parts (parts_of_parse h)

end Parts

section Lost

/-- What a pattern is made of: what stands before the first place and, if there is one, parts that
begin with it. -/
theorem parts_shape
    {room : Nat}
    {text : List Char}
    {pattern : PathPattern}
    (h : parts room text = .ok pattern) :
    ((text.dropWhile fun c => !isMark c) = [] ∧ pattern = fixedPart text) ∨
    ((text.dropWhile fun c => !isMark c) ≠ [] ∧
      ∃ place others, pattern = fixedPart text ++ place :: others) := by
  fun_induction parts room text with
  | case1 room text hnone => exact .inl ⟨hnone, (Except.ok.inj h).symm⟩
  | case2 | case3 | case4 => cases h
  | case5 room text rest name _ _ _ hopens =>
      obtain ⟨others, -, rfl⟩ := exists_of_bind_eq_ok h
      exact .inr ⟨by rw [hopens]; exact List.cons_ne_nil _ _, _, _, rfl⟩
  | case6 room text mark rest hopens =>
      obtain ⟨others, -, rfl⟩ := exists_of_bind_eq_ok h
      exact .inr ⟨by rw [hopens]; exact List.cons_ne_nil _ _, _, _, rfl⟩

/-- Where the first place opens early, it does so among the first characters. -/
theorem opens_within_iff
    {text : List Char}
    {n : Nat} :
    (∃ c ∈ text.take n, isMark c = true) ↔
      (text.dropWhile fun c => !isMark c) ≠ [] ∧
        (text.takeWhile fun c => !isMark c).length < n := by
  induction text generalizing n with
  | nil => simp
  | cons c text ih =>
      cases n with
      | zero => simp
      | succ n =>
          cases hc : isMark c with
          | true => simp [hc]
          | false => simp [hc, ih]

/-- The path that is lost beside a fixed one. -/
theorem isLost_iff
    {fixed text : String}
    {pattern : PathPattern}
    (h : parse fixed text = .ok pattern)
    (hslash : text.toList.head? = some '/')
    (path : List Char) :
    isLost fixed.toList pattern path = true ↔
      path = fixed.toList ++ ['/'] ∧
        ∃ c ∈ text.toList.take fixed.toList.length, isMark c = true := by
  have hliteral : fixedPart text.toList =
      [.literal (text.toList.takeWhile fun c => !isMark c)] := by
    obtain ⟨rest, hrest⟩ := List.head?_eq_some_iff.1 hslash
    rw [fixedPart, if_neg]
    simp [hrest, isMark]
  rw [opens_within_iff]
  rcases parts_shape (parts_of_parse h) with ⟨hnone, rfl⟩ | ⟨hsome, place, others, rfl⟩
  · rw [hliteral, hnone]
    simp [isLost]
  · rw [hliteral]
    simp [isLost, hsome, and_comm]

end Lost

end PathPattern
end PushGate
