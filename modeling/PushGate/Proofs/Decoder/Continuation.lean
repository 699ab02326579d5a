import PushGate.Proofs.Decoder.Settling
import PushGate.Proofs.Markup.Passage

/-!
# Documents that begin alike

Two documents in which the reader passes the same events lead the decoder to one state.  So they are
decoded alike if the decoder goes on alike from there, and of its state no more has to be known for
this than how many elements are open, which the reader knows too.  What is meant by alike can be any
reflexive relation: a decoder that stops before comes to one outcome in both.

**Results.**
* `readOn_of_passes`: going on behind events that have been passed.
* `depthAt_of_passes`: how many elements are open where the reader has come to.
* `run_related`: two lists of events that begin alike.
* `decode_related_of_passes`, `decode_congr_of_passes`: two documents that begin alike.
-/

namespace PushGate

open Markup (Event Ending Reading Reader)

namespace Decoder

/-- The decoder knows of so many open elements, and of no field unless a child of the root is among
them. -/
structure State.Stands (s : State) (depth : Nat) : Prop where
  depth_eq : s.depth = depth
  outside : depth < 2 → s.field = none ∧ s.scratch = ""

section Continuation

variable {es later later' : List Event} {ending ending' : Ending} {i : Nat} {s : State}

theorem Tracks.stands
    (h : Tracks es i s) :
    s.Stands (depthAt es i) := by
  refine ⟨h.depth, ?_⟩
  intro hdepth
  exact h.outside (h.depth ▸ hdepth)

/-- The decoder goes through the events that are passed and on behind them. -/
theorem State.readOn_of_passes
    {r r' : Reader}
    (h : r.Passes es r') :
    s.readOn r = s.run (es ++ r'.read.events) r'.read.ending := by
  rw [readOn, h.read_eq]

/-- Two lists of events that begin alike are gone through alike, if this is so behind their
beginning. -/
theorem run_related
    {R : Outcome → Outcome → Prop}
    (hrefl : ∀ o, R o o)
    (hbalanced : Balanced (es ++ later))
    (htracks : Tracks (es ++ later) i s)
    (hi : i ≤ es.length)
    (hlater : ∀ t, Tracks (es ++ later) es.length t →
      R (t.run later ending) (t.run later' ending')) :
    R (s.run (es.drop i ++ later) ending) (s.run (es.drop i ++ later') ending') := by
  generalize hn : es.length - i = n
  induction n generalizing i s with
  | zero =>
      obtain rfl : i = es.length := by omega
      rw [List.drop_length]
      exact hlater s htracks
  | succ n ih =>
      have hlt : i < es.length := by omega
      have hevent : (es ++ later)[i]? = some es[i] := by
        rw [List.getElem?_append_left hlt, List.getElem?_eq_getElem hlt]
      have haccords : (s.step es[i]).Accords ⟨es ++ later, ending⟩ i :=
        step_tracks htracks hbalanced hevent
      rw [List.drop_eq_getElem_cons hlt, List.cons_append, List.cons_append]
      cases hstep : s.step es[i] with
      | finished o =>
          simp only [State.run, hstep]
          exact hrefl o
      | reading t =>
          rw [hstep] at haccords
          simp only [State.run, hstep]
          exact ih haccords.1 (by omega) (by omega)

section Passed

variable {bytes : Bytes} {r r' : Reader}

/-- What has been passed is a beginning of the document's events. -/
theorem events_of_passes
    (h : (Reader.ofBytes bytes).Passes es r) :
    (Reading.ofBytes bytes).events = es ++ r.read.events :=
  congrArg Reading.events h.read_eq

/-- The event that is passed next. -/
theorem getElem?_of_passes
    {e : Event}
    (h : (Reader.ofBytes bytes).Passes es r)
    (next : r.next = .ok (some (e, r'))) :
    (Reading.ofBytes bytes).events[es.length]? = some e := by
  rw [events_of_passes h, Reader.read_eq, next]
  simp

/-- Where the reader has come to, so many elements are open. -/
theorem depthAt_of_passes
    (h : (Reader.ofBytes bytes).Passes es r) :
    depthAt (Reading.ofBytes bytes).events es.length = r.opened.length := by
  have hlength := h.length_opened
  rw [Reader.opened_ofBytes, List.length_nil, Nat.zero_add] at hlength
  rw [events_of_passes h, depthAt, List.take_left]
  omega

end Passed

/-- **Documents that begin alike.**  Two documents in which the same events are passed are decoded
alike, if the decoder goes on alike behind these with as many elements open as the reader knows. -/
theorem decode_related_of_passes
    {R : Outcome → Outcome → Prop}
    {bytes bytes' : Bytes}
    {r r' : Reader}
    (target : Message)
    (hrefl : ∀ o, R o o)
    (h : (Reader.ofBytes bytes).Passes es r)
    (h' : (Reader.ofBytes bytes').Passes es r')
    (hagree : ∀ s : State, s.Stands r.opened.length → R (s.readOn r) (s.readOn r')) :
    R (decode target bytes) (decode target bytes') := by
  have hevents := events_of_passes h
  have hbalanced : Balanced (es ++ r.read.events) := hevents ▸ balanced_ofBytes bytes
  have hdepth : depthAt (es ++ r.read.events) es.length = r.opened.length :=
    hevents ▸ depthAt_of_passes h
  have hstart : Tracks (es ++ r.read.events) 0 { message := .blank } := tracks_start _ _
  have hrun := run_related hrefl hbalanced hstart (Nat.zero_le _) fun t ht =>
    hagree t (hdepth ▸ ht.stands)
  rw [decode_eq_readOn, decode_eq_readOn, State.readOn_of_passes h, State.readOn_of_passes h']
  exact hrun

theorem decode_congr_of_passes
    {bytes bytes' : Bytes}
    {r r' : Reader}
    (target : Message)
    (h : (Reader.ofBytes bytes).Passes es r)
    (h' : (Reader.ofBytes bytes').Passes es r')
    (hagree : ∀ s : State, s.Stands r.opened.length → s.readOn r = s.readOn r') :
    decode target bytes = decode target bytes' :=
  decode_related_of_passes target Eq.refl h h' hagree

end Continuation

end Decoder
end PushGate
