/-!
# Pools

A pool lends values that are costly to make.  It keeps a stack of idle values; one is taken from
the top of the stack, or made if the stack is empty, and when it comes back it is reset and kept,
unless the pool already keeps as many as its capacity.  There is a largest capacity.

A value lives in a slot, which has a serial number, so that it can be told from others with the
same content.

**Results.**
* `stats_acquire`, `stats_release`: what the operations do to the counters.
-/

namespace PushGate

/-- Values that can be used again after a reset. -/
class Resettable (α : Type) where
  /-- A value that has just been made. -/
  fresh : α
  /-- Makes a used value fit for its next use. -/
  reset : α → α

/-- A value and its identity. -/
structure Slot (α : Type) where
  serial : Nat
  value : α
deriving DecidableEq

/-- A pool of values. -/
structure Pool (α : Type) where
  /-- How many idle values are kept. -/
  capacity : Nat
  /-- The idle values, the next one to be lent first. -/
  idle : List (Slot α)
  inUse : Nat
  created : Nat
deriving DecidableEq

namespace Pool

structure Stats where
  idle : Nat
  inUse : Nat
  created : Nat
deriving DecidableEq

section

variable {α : Type}

def stats (p : Pool α) : Stats :=
  ⟨p.idle.length, p.inUse, p.created⟩

variable [Resettable α]

/-- A pool that keeps `capacity` idle values, which are made at once. -/
def ofCapacity (capacity : Nat) : Pool α where
  capacity := capacity
  idle := (List.range capacity).reverse.map fun serial => ⟨serial, Resettable.fresh⟩
  inUse := 0
  created := capacity

/-- The largest capacity.  An idle value takes eight bytes of the stack, and a stack has less than
`2 ^ 63` bytes. -/
def maxCapacity : Nat := 0xFFFFFFFFFFFFFFF

/-- Why there is no pool of a capacity. -/
inductive CapacityError where
  | overflow
deriving DecidableEq

def CapacityError.message : CapacityError → String
  | .overflow => "capacity overflow"

/-- A pool of a capacity, if there can be one. -/
def make (capacity : Nat) : Except CapacityError (Pool α) :=
  if capacity ≤ maxCapacity then .ok (ofCapacity capacity) else .error .overflow

/-- Lends a value: the one kept last, or a new one. -/
def acquire (p : Pool α) : Slot α × Pool α :=
  match p.idle with
  | slot :: idle => (slot, { p with idle := idle, inUse := p.inUse + 1 })
  | [] =>
      (⟨p.created, Resettable.fresh⟩, { p with inUse := p.inUse + 1, created := p.created + 1 })

/-- Whether a value that comes back is kept. -/
def hasRoom (p : Pool α) : Bool :=
  p.idle.length < p.capacity

def release (p : Pool α) (slot : Slot α) : Pool α :=
  if p.hasRoom then
    { p with
      idle := { slot with value := Resettable.reset slot.value } :: p.idle
      inUse := p.inUse - 1 }
  else { p with inUse := p.inUse - 1 }

/-! ## Counters -/

theorem stats_acquire (p : Pool α) :
    p.acquire.2.stats =
      if p.idle = [] then ⟨0, p.inUse + 1, p.created + 1⟩
      else ⟨p.idle.length - 1, p.inUse + 1, p.created⟩ := by
  unfold acquire stats
  cases p.idle <;> simp

theorem stats_release (p : Pool α) (slot : Slot α) :
    (p.release slot).stats =
      ⟨min (p.idle.length + 1) (max p.idle.length p.capacity), p.inUse - 1, p.created⟩ := by
  unfold release hasRoom stats
  split
  · rename_i h
    simp only [decide_eq_true_eq] at h
    simp only [List.length_cons, Stats.mk.injEq, and_true]
    omega
  · rename_i h
    simp only [decide_eq_true_eq] at h
    simp only [Stats.mk.injEq, and_true]
    omega

@[simp] theorem stats_ofCapacity (capacity : Nat) :
    (ofCapacity capacity : Pool α).stats = ⟨capacity, 0, capacity⟩ := by
  simp [ofCapacity, stats]

end

end Pool
end PushGate
