import Mathlib.Data.Nat.Find
import PushGate.Proofs.Decoder.Loop
import PushGate.Proofs.Markup.Passage

/-!
# The turns of the decoder

The decoder goes through a push in turns.  In each it asks the reader for one event and takes the event in.
A fault of the reader and the end of the input are its last turn, and so is an event that stops it; behind
any other event there is a further turn.

Nothing in this says how many turns there are.  But every event takes a byte at least from what the reader
has before it, a lone `<` or the tag of an empty element no less than a long text.  So there are at most as
many turns as bytes, and one for the end.

**Results.**
* `turn_eq_before_iff`: when there is a further turn.
* `Turn.outcome_next`, `outcome_turns`: the turns come to what is decoded.
* `length_rest_turns`: what the reader has before it after so many turns.
* `decode_returns`: the decoder gets through, within as many turns as there are bytes and one more.
-/

namespace PushGate

open Markup (Event Reader)

namespace Decoder

/-- Where the decoder is between turns. -/
inductive Turn where
  /-- Before another turn: the decoder in a state, with the reader at a place. -/
  | before (s : State) (r : Reader)
  /-- Through, with an outcome. -/
  | through (o : Outcome)
deriving DecidableEq

/-- One turn: the reader is asked for an event once. -/
def State.turn (s : State) (r : Reader) : Turn :=
  match r.next with
  | .error e => .through (s.finish (.malformed e))
  | .ok none => .through (s.finish .finished)
  | .ok (some (event, r')) =>
      match s.step event with
      | .reading t => .before t r'
      | .finished o => .through o

namespace Turn

/-- What comes next; a decoder that is through stays so. -/
def next : Turn → Turn
  | .before s r => s.turn r
  | .through o => .through o

/-- What the decoder comes to from here. -/
def outcome : Turn → Outcome
  | .before s r => s.readOn r
  | .through o => o

end Turn

/-- Where the decoder is after so many turns. -/
def turns (target : Message) (body : Bytes) : Nat → Turn
  | 0 => .before { message := target.reset } (Reader.ofBytes body)
  | n + 1 => (turns target body n).next

section Turns

variable {target : Message} {body : Bytes} {s t : State} {r r' : Reader} {o : Outcome} {n : Nat}

/-- There is a further turn behind an event that does not stop the decoder. -/
theorem turn_eq_before_iff :
    s.turn r = .before t r' ↔ ∃ e, r.next = .ok (some (e, r')) ∧ s.step e = .reading t := by
  rw [State.turn]
  cases hnext : r.next with
  | error e => simp
  | ok found =>
      cases found with
      | none => simp
      | some p =>
          obtain ⟨e, r₁⟩ := p
          cases hstep : s.step e with
          | reading t₁ =>
              simp only [hstep, Turn.before.injEq, Except.ok.injEq, Option.some.injEq,
                Prod.mk.injEq]
              constructor
              · rintro ⟨rfl, rfl⟩
                exact ⟨e, ⟨rfl, rfl⟩, hstep⟩
              · rintro ⟨e', ⟨rfl, rfl⟩, hstep'⟩
                rw [hstep] at hstep'
                cases hstep'
                exact ⟨rfl, rfl⟩
          | finished o =>
              simp only [hstep, reduceCtorEq, false_iff]
              rintro ⟨e', heq, hstep'⟩
              cases heq
              rw [hstep] at hstep'
              cases hstep'

/-- A fault of the reader, and the end of the input, are the last turn. -/
theorem turn_of_no_event
    (s : State)
    (h : ∀ e r', r.next ≠ .ok (some (e, r'))) :
    ∃ o, s.turn r = .through o := by
  cases hturn : s.turn r with
  | before t r' =>
      obtain ⟨e, hnext, -⟩ := turn_eq_before_iff.1 hturn
      exact absurd hnext (h e r')
  | through o => exact ⟨o, rfl⟩

/-- A turn leaves what the decoder comes to as it is. -/
theorem Turn.outcome_next (turn : Turn) : turn.next.outcome = turn.outcome := by
  cases turn with
  | through o => rfl
  | before s r =>
      rw [next, State.turn]
      cases hnext : r.next with
      | error e => exact (State.readOn_of_fault hnext).symm
      | ok found =>
          cases found with
          | none => exact (State.readOn_of_end hnext).symm
          | some p =>
              obtain ⟨e, r'⟩ := p
              cases hstep : s.step e with
              | reading t =>
                  simp only [hstep]
                  exact (State.readOn_of_reading hnext hstep).symm
              | finished o =>
                  simp only [hstep]
                  exact (State.readOn_of_finished hnext hstep).symm

/-- The turns come to what is decoded. -/
theorem outcome_turns
    (target : Message)
    (body : Bytes)
    (n : Nat) :
    (turns target body n).outcome = decode target body := by
  induction n with
  | zero => rfl
  | succ n ih => rw [turns, Turn.outcome_next, ih]

theorem turns_succ_of_through
    (h : turns target body n = .through o) :
    turns target body (n + 1) = .through o := by
  rw [turns, h]
  rfl

/-- A decoder that is through has the outcome, and stays where it is. -/
theorem turns_of_through
    {m : Nat}
    (h : turns target body n = .through o)
    (hm : n ≤ m) :
    turns target body m = .through (decode target body) := by
  obtain rfl : decode target body = o := by
    rw [← outcome_turns target body n, h]
    rfl
  induction m, hm using Nat.le_induction with
  | base => exact h
  | succ m _ ih => exact turns_succ_of_through ih

/-- What comes before a turn: a turn behind an event, unless it is the first. -/
theorem turns_succ_eq_before
    (h : turns target body (n + 1) = .before t r') :
    ∃ s r e, turns target body n = .before s r ∧ r.next = .ok (some (e, r')) ∧
      s.step e = .reading t := by
  rw [turns] at h
  cases hturn : turns target body n with
  | through o =>
      rw [hturn] at h
      cases h
  | before s r =>
      rw [hturn] at h
      obtain ⟨e, hnext, hstep⟩ := turn_eq_before_iff.1 h
      exact ⟨s, r, e, rfl, hnext, hstep⟩

/-- Every turn before has taken a byte. -/
theorem length_rest_turns
    (h : turns target body n = .before s r) :
    n + r.rest.length ≤ body.length := by
  induction n generalizing s r with
  | zero =>
      cases h
      rw [Nat.zero_add]
      exact Reader.length_rest_ofBytes body
  | succ n ih =>
      obtain ⟨s₀, r₀, e, hturn, hnext, -⟩ := turns_succ_eq_before h
      have hlength := Reader.next_length hnext
      have hrest := ih hturn
      omega

/-- After as many turns as there are bytes, and one more, the decoder is through. -/
theorem turns_length_succ
    (target : Message)
    (body : Bytes) :
    turns target body (body.length + 1) = .through (decode target body) := by
  cases hturn : turns target body (body.length + 1) with
  | before s r =>
      have hlength := length_rest_turns hturn
      omega
  | through o =>
      rw [← hturn]
      exact turns_of_through hturn (Nat.le_refl _)

end Turns

/-- **The decoder gets through.**  Whatever the bytes, the decoder takes a number of turns, in each of which
it asks for one event, and then has the outcome.  There is at most one turn for each byte, and one more:
every event takes a byte at least, and a fault and the end of the input are always the last turn. -/
theorem decode_returns
    (target : Message)
    (body : Bytes) :
    (∃ n ≤ body.length + 1,
      (∀ i, (∃ s r, turns target body i = .before s r) ↔ i < n) ∧
      ∀ i, n ≤ i → turns target body i = .through (decode target body)) ∧
    (∀ (r r' : Reader) (e : Event), r.next = .ok (some (e, r')) →
      ∃ used, used ≠ [] ∧ r.rest = used ++ r'.rest) ∧
    ∀ (s : State) (r : Reader), (∀ e r', r.next ≠ .ok (some (e, r'))) →
      ∃ o, s.turn r = .through o := by
  refine ⟨?_, fun r r' e => Reader.exists_used_of_next, fun s r => turn_of_no_event s⟩
  have hend : ∃ n, turns target body n = .through (decode target body) :=
    ⟨_, turns_length_succ target body⟩
  refine ⟨Nat.find hend, Nat.find_min' hend (turns_length_succ target body), ?_, ?_⟩
  · intro i
    constructor
    · rintro ⟨s, r, hturn⟩
      by_contra hlate
      rw [turns_of_through (Nat.find_spec hend) (Nat.le_of_not_lt hlate)] at hturn
      cases hturn
    · intro hlt
      cases hturn : turns target body i with
      | before s r => exact ⟨s, r, rfl⟩
      | through o =>
          exact absurd (turns_of_through hturn (Nat.le_refl i)) (Nat.find_min hend hlt)
  · intro i hi
    exact turns_of_through (Nat.find_spec hend) hi

/-- For one byte that is read there are two turns, as many as there can be. -/
theorem decode_returns_letter :
    let body := Utf8.ofString "a"
    (∀ i, (∃ s r, turns .blank body i = .before s r) ↔ i < body.length + 1) ∧
    turns .blank body 2 = .through ⟨.blank, some .missingRoot⟩ := by
  have hfirst : turns .blank (Utf8.ofString "a") 1 =
      .before { message := .blank } ⟨[], []⟩ := by
    decide +kernel
  have houtcome : decode .blank (Utf8.ofString "a") = ⟨.blank, some .missingRoot⟩ := by
    decide +kernel
  intro body
  obtain ⟨⟨n, hle, hbefore, hthrough⟩, -⟩ := decode_returns .blank body
  have hlength : body.length = 1 := by decide +kernel
  have hlt : 1 < n := (hbefore 1).1 ⟨_, _, hfirst⟩
  obtain rfl : n = 2 := by omega
  rw [hlength]
  exact ⟨hbefore, houtcome ▸ hthrough 2 (Nat.le_refl 2)⟩

end Decoder
end PushGate
