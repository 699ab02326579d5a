import PushGate.Pool.Basic

/-!
# Sessions with a pool

A session is a pool together with the values that it has lent.  Each loan is a guard, numbered in
the order of acquisition; its number is never given again.  A guard's value can be read and written
until it is released; what is asked of a guard that is not live is refused.

A panic acquires a value, writes to it and never returns: the value is released on the way out.

Values that the pool does not keep are freed; their serial numbers are recorded.
-/

namespace PushGate
namespace Pool

/-- A pool and its loans. -/
structure Session (α : Type) where
  pool : Pool α
  /-- The live guards, the latest first, each with the slot that it holds. -/
  guards : List (Nat × Slot α) := []
  /-- How many guards there have been. -/
  issued : Nat := 0
  /-- The serial numbers of the values that are no more, the latest first. -/
  freed : List Nat := []

/-- What can be asked of a session. -/
inductive Operation (α : Type) where
  | acquire
  | write (guard : Nat) (change : α → α)
  | read (guard : Nat)
  | release (guard : Nat)
  | panic (change : α → α)

/-- What comes of it. -/
inductive Reply (α : Type) where
  /-- A new guard and its value. -/
  | acquired (guard : Nat) (slot : Slot α)
  /-- The value of a guard, after a change if there was one. -/
  | value (slot : Slot α)
  | released
  | panicked
  /-- There is no such guard, or there is none any more. -/
  | noGuard
deriving DecidableEq

namespace Session

section

variable {α : Type}

/-- The slot of a live guard. -/
def slot? (s : Session α) (guard : Nat) : Option (Slot α) :=
  s.guards.lookup guard

/-- A session without the guard of a number. -/
def forget (guards : List (Nat × Slot α)) (guard : Nat) : List (Nat × Slot α) :=
  guards.filter fun g => g.1 != guard

/-- The guards after a change to the slot of one of them. -/
def update (guards : List (Nat × Slot α)) (guard : Nat) (slot : Slot α) :
    List (Nat × Slot α) :=
  guards.map fun g => if g.1 = guard then (guard, slot) else g

variable [Resettable α]

/-- A session with a new pool. -/
def ofCapacity (capacity : Nat) : Session α :=
  { pool := .ofCapacity capacity }

/-- A session with a new pool, if there can be one of that capacity. -/
def make (capacity : Nat) : Except CapacityError (Session α) :=
  match Pool.make capacity with
  | .error e => .error e
  | .ok pool => .ok { pool := pool }

/-- Gives a slot back to the pool; it is freed if it is not kept. -/
def giveBack (s : Session α) (slot : Slot α) : Session α :=
  { s with
    pool := s.pool.release slot
    freed := if s.pool.hasRoom then s.freed else slot.serial :: s.freed }

def step (s : Session α) : Operation α → Reply α × Session α
  | .acquire =>
      let (slot, pool) := s.pool.acquire
      (.acquired s.issued slot,
        { s with pool := pool, guards := (s.issued, slot) :: s.guards, issued := s.issued + 1 })
  | .write guard change =>
      match s.slot? guard with
      | none => (.noGuard, s)
      | some slot =>
          let changed := { slot with value := change slot.value }
          (.value changed, { s with guards := update s.guards guard changed })
  | .read guard =>
      match s.slot? guard with
      | none => (.noGuard, s)
      | some slot => (.value slot, s)
  | .release guard =>
      match s.slot? guard with
      | none => (.noGuard, s)
      | some slot => (.released, { s with guards := forget s.guards guard }.giveBack slot)
  | .panic change =>
      let (slot, pool) := s.pool.acquire
      (.panicked, { s with pool := pool }.giveBack { slot with value := change slot.value })

def run (s : Session α) : List (Operation α) → List (Reply α) × Session α
  | [] => ([], s)
  | operation :: operations =>
      let (reply, t) := s.step operation
      let (replies, u) := t.run operations
      (reply :: replies, u)

/-- Releases the live guards in the order of their numbers. -/
def close (s : Session α) : Session α :=
  s.guards.reverse.foldl (fun s g => (s.step (.release g.1)).2) s

end

end Session
end Pool

end PushGate
