import PushGate.Proofs.Pool.Conservation

/-!
# Elasticity of a session

A pool lends as many values as are asked of it, and makes one only if it keeps none.  Between two
operations there are never fewer values than its capacity, so one is made only if at least as many
are lent; and there are never more than its capacity, or than were lent at once at some time.

A panic has a guard of its own while it lasts, which counts among those that are held at once.

**Results.**
* `Conserved.steady_step`: every operation leaves the pool steady.
* `Conserved.alive_run`: how many values there can be after a run.
* `run_elastic`: both, for a session with a new pool.
-/

namespace PushGate
namespace Pool

/-- How many values there are, kept or lent. -/
def Stats.alive (stats : Stats) : Nat :=
  stats.idle + stats.inUse

section Pools

variable {α : Type} [Resettable α] {p : Pool α}

/-- A value is made where none is kept. -/
theorem alive_acquire
    (p : Pool α) :
    p.acquire.2.stats.alive = max p.stats.alive (p.inUse + 1) := by
  rw [stats_acquire]
  by_cases hidle : p.idle = []
  · rw [if_pos hidle]
    simp only [stats, Stats.alive, hidle, List.length_nil]
    omega
  · rw [if_neg hidle]
    have := List.length_pos_iff.2 hidle
    simp only [stats, Stats.alive]
    omega

/-- A value that comes back is kept or freed. -/
theorem alive_release_le
    (hlent : 0 < p.inUse)
    (slot : Slot α) :
    (p.release slot).stats.alive ≤ p.stats.alive := by
  rw [stats_release]
  simp only [stats, Stats.alive]
  omega

theorem inUse_acquire
    (p : Pool α) :
    p.acquire.2.inUse = p.inUse + 1 := by
  rw [acquire]
  split <;> rfl

theorem created_release
    (p : Pool α)
    (slot : Slot α) :
    (p.release slot).created = p.created :=
  congrArg Stats.created (stats_release p slot)

theorem idle_eq_nil_of_created_lt
    (h : p.created < p.acquire.2.created) :
    p.idle = [] := by
  refine Decidable.byContradiction fun hidle => ?_
  have hcreated := congrArg Stats.created (stats_acquire p)
  rw [if_neg hidle] at hcreated
  exact Nat.ne_of_gt h hcreated

end Pools

namespace Session

section Elasticity

variable {α : Type} [Resettable α]

/-- How many guards there are at once while an operation is carried out. -/
def heldDuring (s : Session α) : Operation α → Nat
  | .acquire => s.guards.length + 1
  | .panic _ => s.guards.length + 1
  | _ => s.guards.length

/-- The most guards that there have been at once in a run. -/
def peak (s : Session α) : List (Operation α) → Nat
  | [] => s.guards.length
  | operation :: operations =>
      max (s.heldDuring operation) ((s.step operation).2.peak operations)

/-- What an operation does to the pool and to the number of guards. -/
inductive Moves (s t : Session α) : Operation α → Prop
  | acquires
      (pool : t.pool = s.pool.acquire.2)
      (held : t.guards.length = s.guards.length + 1) :
      Moves s t .acquire
  | stays
      (operation : Operation α)
      (pool : t.pool = s.pool)
      (held : t.guards.length = s.guards.length) :
      Moves s t operation
  | releases
      (guard : Nat)
      (slot : Slot α)
      (pool : t.pool = s.pool.release slot)
      (held : s.guards.length = t.guards.length + 1) :
      Moves s t (.release guard)
  | panics
      (change : α → α)
      (slot : Slot α)
      (pool : t.pool = s.pool.acquire.2.release slot)
      (held : t.guards.length = s.guards.length) :
      Moves s t (.panic change)

section Steps

variable {s : Session α} {capacity : Nat}

theorem Conserved.moves
    (h : s.Conserved capacity)
    (operation : Operation α) :
    Moves s (s.step operation).2 operation := by
  cases operation with
  | acquire => exact .acquires rfl rfl
  | write guard change =>
      cases hslot : s.slot? guard with
      | none => simpa only [Session.step, hslot] using .stays _ rfl rfl
      | some slot =>
          rw [step_write change hslot]
          exact .stays _ rfl (List.length_map _)
  | read guard =>
      cases hslot : s.slot? guard <;>
      · simpa only [Session.step, hslot] using .stays _ rfl rfl
  | release guard =>
      cases hslot : s.slot? guard with
      | none => simpa only [Session.step, hslot] using .stays _ rfl rfl
      | some slot =>
          obtain ⟨earlier, later, hguards, hforget, -⟩ := exists_split h.numbered hslot
          rw [step_release hslot, hforget]
          refine .releases guard slot rfl ?_
          rw [hguards, List.length_append, List.length_cons]
          exact congrArg (· + 1) List.length_append.symm
  | panic change => exact .panics change _ rfl rfl

theorem Conserved.steady_step
    (h : s.Conserved capacity)
    (hsteady : s.pool.Steady capacity s.guards.length)
    (operation : Operation α) :
    (s.step operation).2.pool.Steady capacity (s.step operation).2.guards.length := by
  cases h.moves operation with
  | acquires pool held =>
      rw [pool, held]
      exact hsteady.acquire
  | stays _ pool held =>
      rw [pool, held]
      exact hsteady
  | releases _ slot pool held =>
      rw [held] at hsteady
      rw [pool]
      exact hsteady.release slot
  | panics _ slot pool held =>
      rw [pool, held]
      exact hsteady.acquire.release slot

/-- There are more values than before only if more guards are held than there were values. -/
theorem Conserved.alive_step
    (h : s.Conserved capacity)
    (operation : Operation α) :
    (s.step operation).2.pool.stats.alive ≤ max s.pool.stats.alive (s.heldDuring operation) := by
  have hacquire : s.pool.acquire.2.stats.alive = max s.pool.stats.alive (s.guards.length + 1) := by
    rw [alive_acquire, h.inUse_eq]
  cases h.moves operation with
  | acquires pool held =>
      rw [pool]
      exact Nat.le_of_eq hacquire
  | stays _ pool held =>
      rw [pool]
      exact Nat.le_max_left ..
  | releases _ slot pool held =>
      have hlent : 0 < s.pool.inUse := by
        rw [h.inUse_eq, held]
        exact Nat.succ_pos _
      rw [pool]
      exact Nat.le_trans (alive_release_le hlent slot) (Nat.le_max_left ..)
  | panics _ slot pool held =>
      have hlent : 0 < s.pool.acquire.2.inUse := by
        rw [inUse_acquire]
        exact Nat.succ_pos _
      rw [pool]
      exact Nat.le_trans (alive_release_le hlent slot) (Nat.le_of_eq hacquire)

/-- A value is made only if none is kept. -/
theorem Conserved.idle_eq_nil
    (h : s.Conserved capacity)
    (operation : Operation α)
    (hmade : s.pool.created < (s.step operation).2.pool.created) :
    s.pool.idle = [] := by
  cases h.moves operation with
  | acquires pool held =>
      rw [pool] at hmade
      exact idle_eq_nil_of_created_lt hmade
  | stays _ pool held =>
      rw [pool] at hmade
      exact absurd hmade (Nat.lt_irrefl _)
  | releases _ slot pool held =>
      rw [pool, created_release] at hmade
      exact absurd hmade (Nat.lt_irrefl _)
  | panics _ slot pool held =>
      rw [pool, created_release] at hmade
      exact idle_eq_nil_of_created_lt hmade

theorem Conserved.steady_run
    (h : s.Conserved capacity)
    (hsteady : s.pool.Steady capacity s.guards.length)
    (operations : List (Operation α)) :
    (s.run operations).2.pool.Steady capacity (s.run operations).2.guards.length := by
  induction operations generalizing s with
  | nil => exact hsteady
  | cons operation operations ih => exact ih (h.step operation) (h.steady_step hsteady operation)

theorem Conserved.alive_run
    (h : s.Conserved capacity)
    (operations : List (Operation α)) :
    (s.run operations).2.pool.stats.alive ≤ max s.pool.stats.alive (s.peak operations) := by
  induction operations generalizing s with
  | nil => exact Nat.le_max_left ..
  | cons operation operations ih =>
      have hstep := h.alive_step operation
      have hrun := ih (h.step operation)
      simp only [Session.run, peak]
      omega

end Steps

/-- **Elasticity.**  After any run a value can be acquired; the pool and the guards have at least as
many values as the capacity says, and no more than that, or than there have been guards at once; no
operation makes a value unless the guards hold at least as many as the capacity says; and a pool
without guards is full. -/
theorem run_elastic
    (capacity : Nat)
    (operations : List (Operation α)) :
    let new : Session α := ofCapacity capacity
    let s := (new.run operations).2
    (∃ slot, (s.step .acquire).1 = .acquired s.issued slot ∧
      (s.step .acquire).2.slot? s.issued = some slot) ∧
    s.pool.stats.inUse = s.guards.length ∧
    capacity ≤ s.pool.stats.alive ∧
    (∀ operation, s.pool.stats.created < (s.step operation).2.pool.stats.created →
      capacity ≤ s.guards.length) ∧
    s.pool.stats.alive ≤ max capacity (new.peak operations) ∧
    (s.guards = [] → s.pool.stats.idle = capacity ∧ s.pool.stats.inUse = 0) := by
  intro new s
  have hnew : new.Conserved capacity := conserved_ofCapacity capacity
  have hs : s.Conserved capacity := hnew.run operations
  have hsteady : s.pool.Steady capacity s.guards.length :=
    hnew.steady_run (steady_ofCapacity capacity) operations
  have hall : capacity ≤ s.pool.stats.alive := by
    rw [Stats.alive, stats, hsteady.inUse_eq]
    exact hsteady.capacity_le
  refine ⟨⟨_, rfl, s.slot?_acquire⟩, hsteady.inUse_eq, hall, ?_, ?_, ?_⟩
  · intro operation hmade
    have hcapacity := hsteady.capacity_le
    rw [hs.idle_eq_nil operation hmade, List.length_nil, Nat.zero_add] at hcapacity
    exact hcapacity
  · have hrun := hnew.alive_run operations
    have halive : new.pool.stats.alive = capacity := congrArg Stats.alive (stats_ofCapacity capacity)
    rw [halive] at hrun
    exact hrun
  · intro hguards
    rw [hguards] at hsteady
    exact ⟨hsteady.idle_eq, hsteady.inUse_eq⟩

end Elasticity

end Session
end Pool
end PushGate
