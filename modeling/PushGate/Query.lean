import PushGate.Text.Hexadecimal
import PushGate.Utf8

/-!
# Queries

The query of a request is a form: pieces joined by `&`, each a name and a value joined by the first
`=`.  In both, `+` stands for the space and `%` with two hexadecimal digits for a byte; what is not
well formed stands for itself, and bytes that are not UTF-8 are read leniently.

A parameter is looked up by its decoded name.  It may be absent, but it must not occur twice.

**Results.**
* `splitOn_join`: pieces that do not contain the separator are found again after joining them.
* `unescape_escape`: a `%` and two digits of either case stand for one byte.
* `lookup_eq_ok_iff`: a look-up succeeds exactly if the parameter occurs at most once.
-/

namespace PushGate
namespace Query

/-- The pieces between the occurrences of a separator. -/
def splitOn (separator : UInt8) (bytes : Bytes) : List Bytes :=
  bytes.foldr
    (fun b pieces =>
      if b = separator then [] :: pieces
      else
        match pieces with
        | [] => [[b]]
        | piece :: pieces => (b :: piece) :: pieces)
    [[]]

/-- Undoes the `%` escapes; one that is malformed stands for itself. -/
def unescape : Bytes → Bytes
  | [] => []
  | [b] => [b]
  | [b, c] => [b, c]
  | b :: c :: d :: rest =>
      if b = 0x25 then
        match Hexadecimal.value? (Char.ofUInt8 c), Hexadecimal.value? (Char.ofUInt8 d) with
        | some high, some low => UInt8.ofNat (16 * high + low) :: unescape rest
        | _, _ => b :: unescape (c :: d :: rest)
      else b :: unescape (c :: d :: rest)

/-- A plus as the space that it stands for. -/
def plusToSpace (b : UInt8) : UInt8 :=
  if b = 0x2B then 0x20 else b

/-- The text that a written name or value stands for. -/
def decodeText (bytes : Bytes) : String :=
  Utf8.lossy (unescape (bytes.map plusToSpace))

/-- The name and value of a piece. -/
def pair (piece : Bytes) : String × String :=
  (decodeText (piece.takeWhile (· != 0x3D)), decodeText (piece.dropWhile (· != 0x3D)).tail)

/-- The parameters of a query, in order. -/
def parameters (query : Bytes) : List (String × String) :=
  ((splitOn 0x26 query).filter (· != [])).map pair

/-- The parameters of a request, which may come without a query. -/
def parametersOf (query : Option Bytes) : List (String × String) :=
  parameters (query.getD [])

def values (name : String) (ps : List (String × String)) : List String :=
  (ps.filter fun p => p.1 == name).map Prod.snd

/-- A parameter occurs more than once. -/
inductive Repeated where
  | repeated
deriving DecidableEq

/-- The value of a parameter that may be absent. -/
def lookup (name : String) (ps : List (String × String)) : Except Repeated (Option String) :=
  match values name ps with
  | [] => .ok none
  | [value] => .ok (some value)
  | _ => .error .repeated

/-! ## Laws -/

theorem splitOn_of_not_mem {separator : UInt8} {piece : Bytes} (h : separator ∉ piece) :
    splitOn separator piece = [piece] := by
  induction piece with
  | nil => rfl
  | cons b piece ih =>
      simp only [List.mem_cons, not_or] at h
      have := ih h.2
      simp only [splitOn, List.foldr_cons] at this ⊢
      rw [if_neg (Ne.symm h.1), this]

theorem splitOn_append_cons {separator : UInt8} {piece rest : Bytes} (h : separator ∉ piece) :
    splitOn separator (piece ++ separator :: rest) = piece :: splitOn separator rest := by
  induction piece with
  | nil => simp [splitOn]
  | cons b piece ih =>
      simp only [List.mem_cons, not_or] at h
      have := ih h.2
      simp only [splitOn, List.cons_append, List.foldr_cons] at this ⊢
      rw [if_neg (Ne.symm h.1), this]

/-- Pieces joined by a separator. -/
def join (separator : UInt8) : List Bytes → Bytes
  | [] => []
  | [piece] => piece
  | piece :: pieces => piece ++ separator :: join separator pieces

/-- Pieces without the separator are found again after joining them. -/
theorem splitOn_join {separator : UInt8} {pieces : List Bytes} (hne : pieces ≠ [])
    (h : ∀ piece ∈ pieces, separator ∉ piece) :
    splitOn separator (join separator pieces) = pieces := by
  induction pieces with
  | nil => exact absurd rfl hne
  | cons piece pieces ih =>
      cases pieces with
      | nil => exact splitOn_of_not_mem (h piece (by simp))
      | cons next pieces =>
          rw [join, splitOn_append_cons (h piece (by simp)),
            ih (by simp) fun p hp => h p (by simp [hp])]
          simp

/-- A byte that is no percent sign stands for itself. -/
theorem unescape_cons {b : UInt8} (h : b ≠ 0x25) (rest : Bytes) :
    unescape (b :: rest) = b :: unescape rest := by
  match rest with
  | [] => rfl
  | [_] => rfl
  | _ :: _ :: _ => rw [unescape, if_neg h]

/-- A percent sign and two digits stand for a byte. -/
theorem unescape_escape {c d : UInt8} {high low : Nat}
    (hc : Hexadecimal.value? (Char.ofUInt8 c) = some high)
    (hd : Hexadecimal.value? (Char.ofUInt8 d) = some low) (rest : Bytes) :
    unescape (0x25 :: c :: d :: rest) = UInt8.ofNat (16 * high + low) :: unescape rest := by
  rw [unescape, if_pos rfl, hc, hd]

/-- A look-up succeeds exactly if the parameter occurs at most once. -/
theorem lookup_eq_ok_iff {name : String} {ps : List (String × String)} {found : Option String} :
    lookup name ps = .ok found ↔ values name ps = found.toList := by
  unfold lookup
  split
  · rename_i h
    rw [h]
    cases found <;> simp
  · rename_i value h
    rw [h]
    cases found <;> simp
  · rename_i h0 h1
    constructor
    · intro h
      simp at h
    · intro h
      cases found with
      | none => exact absurd h h0
      | some value => exact absurd h (h1 value)

theorem lookup_eq_error_iff {name : String} {ps : List (String × String)} :
    lookup name ps = .error .repeated ↔ 2 ≤ (values name ps).length := by
  unfold lookup
  split
  · rename_i h
    simp [h]
  · rename_i value h
    simp [h]
  · rename_i h0 h1
    simp only [true_iff]
    match hv : values name ps with
    | [] => exact absurd hv h0
    | [value] => exact absurd hv (h1 value)
    | _ :: _ :: _ => simp

end Query
end PushGate
