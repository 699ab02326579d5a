import PushGate.Pool.Basic

/-!
# Steady pools

A pool never keeps more idle values than its capacity, and it never has fewer values than that, the
lent ones counted.  With the number of lent values this is all that the counters need: where nothing
is lent, the pool is full.

**Results.**
* `Steady.acquire`, `Steady.release`: what a loan and its end do.
* `Steady.idle_eq`: a pool that has lent nothing is full.
-/

namespace PushGate
namespace Pool

variable {α : Type}

/-- A pool of a capacity that has lent a number of values. -/
structure Steady
    (capacity lent : Nat)
    (p : Pool α) : Prop where
  capacity_eq : p.capacity = capacity
  inUse_eq : p.inUse = lent
  idle_le : p.idle.length ≤ capacity
  capacity_le : capacity ≤ p.idle.length + lent

theorem Steady.idle_eq
    {p : Pool α}
    {capacity : Nat}
    (h : p.Steady capacity 0) :
    p.idle.length = capacity :=
  Nat.le_antisymm h.idle_le h.capacity_le

variable [Resettable α]

theorem steady_ofCapacity
    (capacity : Nat) :
    (ofCapacity capacity : Pool α).Steady capacity 0 := by
  refine ⟨rfl, rfl, ?_, ?_⟩ <;>
    simp [ofCapacity]

section Loans

variable {p : Pool α} {capacity lent : Nat}

theorem acquire_of_cons
    {slot : Slot α}
    {idle : List (Slot α)}
    (h : p.idle = slot :: idle) :
    p.acquire = (slot, { p with idle := idle, inUse := p.inUse + 1 }) := by
  simp only [acquire, h]

theorem acquire_of_nil
    (h : p.idle = []) :
    p.acquire =
      (⟨p.created, Resettable.fresh⟩,
        { p with inUse := p.inUse + 1, created := p.created + 1 }) := by
  simp only [acquire, h]

theorem release_of_room
    (slot : Slot α)
    (h : p.idle.length < p.capacity) :
    p.release slot =
      { p with
        idle := { slot with value := Resettable.reset slot.value } :: p.idle
        inUse := p.inUse - 1 } := by
  rw [release, hasRoom, decide_eq_true h, if_pos rfl]

theorem release_of_full
    (slot : Slot α)
    (h : ¬ p.idle.length < p.capacity) :
    p.release slot = { p with inUse := p.inUse - 1 } := by
  rw [release, hasRoom, decide_eq_false h, if_neg Bool.false_ne_true]

theorem Steady.acquire
    (h : p.Steady capacity lent) :
    p.acquire.2.Steady capacity (lent + 1) := by
  obtain ⟨hcapacity, hinUse, hidle, hall⟩ := h
  cases hp : p.idle with
  | nil =>
      rw [acquire_of_nil hp]
      rw [hp] at hidle hall
      exact ⟨hcapacity, by rw [hinUse], by rw [hp]; exact hidle, by rw [hp]; omega⟩
  | cons slot idle =>
      rw [acquire_of_cons hp]
      rw [hp, List.length_cons] at hidle hall
      refine ⟨hcapacity, by rw [hinUse], ?_, ?_⟩
      · exact Nat.le_of_succ_le hidle
      · show capacity ≤ idle.length + (lent + 1)
        omega

theorem Steady.release
    (h : p.Steady capacity (lent + 1))
    (slot : Slot α) :
    (p.release slot).Steady capacity lent := by
  obtain ⟨hcapacity, hinUse, hidle, hall⟩ := h
  have hlent : p.inUse - 1 = lent := by rw [hinUse]; rfl
  by_cases hroom : p.idle.length < p.capacity
  · rw [release_of_room slot hroom]
    rw [hcapacity] at hroom
    refine ⟨hcapacity, hlent, hroom, ?_⟩
    rw [List.length_cons]
    omega
  · rw [release_of_full slot hroom]
    rw [hcapacity] at hroom
    exact ⟨hcapacity, hlent, hidle, Nat.le_add_right_of_le (Nat.not_lt.1 hroom)⟩

end Loans

end Pool
end PushGate
