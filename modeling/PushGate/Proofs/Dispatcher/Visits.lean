import PushGate.Dispatcher.Record

/-!
# The exchanges of a run

A run leaves the records of its outermost exchanges, and in their calls the records of the exchanges
that handlers had handled, to any depth.  A visit is one exchange of a run, told with the number of
message handlers that are active around it and with the counters of the pool when it comes.

The handler of a message is active around the exchanges that it has handled; a handler of rejections
holds no message and does not count.  The exchanges in a list follow one another: each finds the
counters that the one before has left.

**Results.**
* `forall_visited_cons_iff`: the visits of a list, by its first exchange.
-/

namespace PushGate

/-- How many messages are held for a handler that is called for an occasion. -/
def Occasion.held : Occasion → Nat
  | .message _ _ => 1
  | .rejection _ => 0

/-- The counters after exchanges that follow one another. -/
def statsAfter
    (start : Pool.Stats)
    (records : List Record) : Pool.Stats :=
  records.foldl (fun _ record => record.pool) start

/-- An exchange of a run, in its place. -/
structure Visit where
  /-- How many message handlers are active around it. -/
  active : Nat
  /-- The counters of the pool before it. -/
  before : Pool.Stats
  record : Record

/-- The visits of a list of exchanges that follow one another, `active` message handlers being
active around them. -/
inductive Visited :
    (active : Nat) → (start : Pool.Stats) → List Record → Visit → Prop
  | first
      {active : Nat} {start : Pool.Stats} {record : Record} {records : List Record} :
      Visited active start (record :: records) ⟨active, start, record⟩
  | inside
      {active : Nat} {start : Pool.Stats} {record : Record} {records : List Record}
      {call : Call Record} {v : Visit}
      (called : call ∈ record.calls)
      (visited : Visited (active + call.occasion.held) call.pool call.nested v) :
      Visited active start (record :: records) v
  | later
      {active : Nat} {start : Pool.Stats} {record : Record} {records : List Record}
      {v : Visit}
      (visited : Visited active record.pool records v) :
      Visited active start (record :: records) v

section Visits

variable {P : Visit → Prop} {active : Nat} {start : Pool.Stats}

theorem forall_visited_nil :
    ∀ v, Visited active start [] v → P v := by
  intro v hv
  cases hv

/-- What holds of all visits of a list holds of its first exchange, of what is inside it, and of the
exchanges that follow. -/
theorem forall_visited_cons_iff
    {record : Record}
    {records : List Record} :
    (∀ v, Visited active start (record :: records) v → P v) ↔
      P ⟨active, start, record⟩ ∧
      (∀ call ∈ record.calls, ∀ v,
        Visited (active + call.occasion.held) call.pool call.nested v → P v) ∧
      ∀ v, Visited active record.pool records v → P v := by
  constructor
  · intro h
    exact ⟨h _ .first, fun call hcall v hv => h v (.inside hcall hv),
      fun v hv => h v (.later hv)⟩
  · rintro ⟨hfirst, hinside, hlater⟩ v hv
    cases hv with
    | first => exact hfirst
    | inside called visited => exact hinside _ called v visited
    | later visited => exact hlater v visited

end Visits

end PushGate
