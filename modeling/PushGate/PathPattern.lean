/-!
# Path patterns

The path of the webhook may hold places for anything: `:name` stands for what comes up to the next
slash, `*name`, at the end, for all that comes.  A place stands for nothing only if it is a `:name`
at which a slash comes at once.  All else stands for itself, character for character.

**Well-formed patterns.**  Each segment has at most one place, each place has a name, there are at
most 25 places `:name`, and what stands for all the rest is at the end, as a segment of its own.  The
first fault from the left is told, misplacement last of all.

**Beside a fixed path.**  A pattern is used beside a path that leads elsewhere.  That path is
followed as far as it goes, and where a pattern opens a place before its end, the two part:

* a place for all the rest that opens there need not be a segment of its own;
* a path that follows the fixed path to its end and goes on is matched with the pattern after all,
  except if a single slash is all that is left: it is then lost.

**Results.**
* `accepts_literal`: a pattern without places stands for itself only.
* `acceptsBeside_of_ne`: away from that one path, the fixed path makes no difference.
-/

namespace PushGate

/-- A part of a path pattern. -/
inductive PathPart where
  /-- Characters that stand for themselves. -/
  | literal (text : List Char)
  /-- Up to the next slash. -/
  | parameter
  /-- All the rest. -/
  | remainder
deriving DecidableEq

/-- What can be wrong with a path pattern. -/
inductive PatternError where
  | unnamed
  | crowded
  | misplaced
  | overfull
deriving DecidableEq

def PatternError.message : PatternError → String
  | .unnamed => "parameters must be registered with a name"
  | .crowded => "only one parameter is allowed per path segment"
  | .misplaced => "catch-all parameters are only allowed at the end of a route"
  | .overfull => "too many route parameters"

/-- A path pattern, as its parts in order. -/
abbrev PathPattern : Type :=
  List PathPart

namespace PathPattern

/-- How many places `:name` a pattern may have. -/
def maxParameters : Nat := 25

/-- Whether a character opens a place. -/
def isMark (c : Char) : Bool :=
  c == ':' || c == '*'

/-- What stands before the first place. -/
def fixedPart (text : List Char) : PathPattern :=
  let literal := text.takeWhile fun c => !isMark c
  if literal = [] then [] else [.literal literal]

/-- The parts of a pattern, whose places all have names, with room for `room` places `:name`. -/
def parts (room : Nat) (text : List Char) : Except PatternError PathPattern :=
  match _h : text.dropWhile fun c => !isMark c with
  | [] => .ok (fixedPart text)
  | mark :: rest =>
      let name := rest.takeWhile (· != '/')
      if name.any isMark then .error .crowded
      else if name = [] then .error .unnamed
      else if mark = ':' then
        if room = 0 then .error .overfull
        else do
          let others ← parts (room - 1) (rest.dropWhile (· != '/'))
          return fixedPart text ++ .parameter :: others
      else do
        let others ← parts room (rest.dropWhile (· != '/'))
        return fixedPart text ++ .remainder :: others
termination_by text.length
decreasing_by
  all_goals
    have hmark := (List.dropWhile_sublist (fun c => !isMark c) (l := text)).length_le
    have hrest := (List.dropWhile_sublist (· != '/') (l := rest)).length_le
    rw [_h] at hmark
    simp only [List.length_cons] at hmark
    omega

/-- Whether the places for all the rest are where they may be, after the part `before`. -/
def wellPlaced (before : Option (List Char)) : PathPattern → Bool
  | [] => true
  | .literal text :: parts => wellPlaced (some text) parts
  | .parameter :: parts => wellPlaced none parts
  | .remainder :: parts => parts == [] && (before.bind List.getLast?) == some '/'

/-- Whether a pattern is the beginning of a path and then a place for all the rest. -/
def partsFrom (fixed : List Char) : PathPattern → Bool
  | [.literal text, .remainder] => text.isPrefixOf fixed
  | _ => false

/-- Reads a pattern that is used beside a fixed path. -/
def parse (fixed text : String) : Except PatternError PathPattern := do
  let pattern ← parts maxParameters text.toList
  if wellPlaced none pattern || partsFrom fixed.toList pattern then return pattern
  else .error .misplaced

/-- Whether a path is one that the pattern stands for. -/
def accepts : PathPattern → List Char → Bool
  | [], path => path.isEmpty
  | .literal text :: parts, path =>
      text.isPrefixOf path && accepts parts (path.drop text.length)
  | .parameter :: parts, path => !path.isEmpty && accepts parts (path.dropWhile (· != '/'))
  | .remainder :: parts, path => parts.isEmpty && !path.isEmpty

/-- Whether a path is lost behind a fixed path: it is that path and a slash, and the pattern opens
a place before the end of it. -/
def isLost (fixed : List Char) : PathPattern → List Char → Bool
  | .literal text :: _ :: _, path =>
      decide (text.length < fixed.length) && path == fixed ++ ['/']
  | _, _ => false

/-- Whether a path other than the fixed one leads to where the pattern does. -/
def acceptsBeside (fixed : List Char) (pattern : PathPattern) (path : List Char) : Bool :=
  accepts pattern path && !isLost fixed pattern path

/-- A pattern without places stands for itself only. -/
theorem accepts_literal (text path : List Char) :
    accepts [.literal text] path = true ↔ path = text := by
  simp only [accepts, Bool.and_eq_true, List.isPrefixOf_iff_prefix, List.isEmpty_iff]
  constructor
  · rintro ⟨⟨rest, rfl⟩, hdrop⟩
    simp at hdrop
    simp [hdrop]
  · rintro rfl
    simp

/-- Away from the fixed path and a slash, the fixed path makes no difference. -/
theorem acceptsBeside_of_ne {fixed path : List Char} (h : path ≠ fixed ++ ['/'])
    (pattern : PathPattern) : acceptsBeside fixed pattern path = accepts pattern path := by
  have : isLost fixed pattern path = false := by
    unfold isLost
    split
    · simp [h]
    · rfl
  simp [acceptsBeside, this]

end PathPattern
end PushGate
