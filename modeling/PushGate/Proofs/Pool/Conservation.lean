import PushGate.Pool.OfMessages
import PushGate.Proofs.Pool.Guards
import PushGate.Proofs.Pool.Steady

/-!
# Conservation in a session

Each value that has been made is in one place: it is kept, or one live guard holds it, or it has
been freed.  The place is told by the serial number, which is counted in the three lists; so what is
lent cannot be lent again, and what is freed does not come back.

The counters follow: a loan takes a value from the idle ones or makes one, and a release puts it
back or frees it.  A panic is a loan, a change and a release.

**Results.**
* `Conserved.step`: every operation keeps all of it.
* `Conserved.run`: so does every run.
-/

namespace PushGate
namespace Pool
namespace Session

section Conservation

variable {α : Type} [Resettable α]

/-- Fit for the next use: fresh, or reset after a use. -/
def Fit (value : α) : Prop :=
  value = Resettable.fresh ∨ ∃ used, value = Resettable.reset used

/-- What holds of a session between two operations, the pool having a capacity. -/
structure Conserved
    (capacity : Nat)
    (s : Session α) : Prop where
  capacity_eq : s.pool.capacity = capacity
  numbered : (s.guards.map Prod.fst).Nodup
  lt_issued : ∀ g ∈ s.guards, g.1 < s.issued
  /-- Each value that has been made is in one of the three places, and there once. -/
  placed : ∀ serial,
    (s.pool.idle.map Slot.serial).count serial + (serials s.guards).count serial +
        s.freed.count serial =
      if serial < s.pool.created then 1 else 0
  idle_le : s.pool.idle.length ≤ capacity
  inUse_eq : s.pool.inUse = s.guards.length
  created_eq : s.pool.created = s.pool.idle.length + s.pool.inUse + s.freed.length
  idle_fit : ∀ slot ∈ s.pool.idle, Fit slot.value

theorem conserved_ofCapacity
    (capacity : Nat) :
    (ofCapacity capacity : Session α).Conserved capacity := by
  have hserials :
      (Pool.ofCapacity capacity : Pool α).idle.map Slot.serial =
        (List.range capacity).reverse := by
    rw [Pool.ofCapacity, List.map_map]
    exact List.map_id _
  have hlength : (Pool.ofCapacity capacity : Pool α).idle.length = capacity := by
    simp [Pool.ofCapacity]
  refine ⟨rfl, List.nodup_nil, ?_, ?_, Nat.le_of_eq hlength, rfl, hlength.symm, ?_⟩
  · intro g hg
    cases hg
  · intro serial
    show ((Pool.ofCapacity capacity : Pool α).idle.map Slot.serial).count serial + 0 + 0 = _
    rw [hserials, List.count_reverse, List.count_range]
    rfl
  · intro slot hslot
    exact Or.inl (clean_ofCapacity capacity slot hslot)

section Steps

variable {s : Session α} {capacity guard : Nat} {slot : Slot α}

theorem step_acquire
    (s : Session α) :
    (s.step .acquire).2 =
      { s with
        pool := s.pool.acquire.2
        guards := (s.issued, s.pool.acquire.1) :: s.guards
        issued := s.issued + 1 } :=
  rfl

theorem step_write
    (change : α → α)
    (h : s.slot? guard = some slot) :
    (s.step (.write guard change)).2 =
      { s with guards := update s.guards guard { slot with value := change slot.value } } := by
  simp only [step, h]

theorem step_release
    (h : s.slot? guard = some slot) :
    (s.step (.release guard)).2 =
      { s with guards := forget s.guards guard }.giveBack slot := by
  simp only [step, h]

theorem Conserved.ne_issued
    (h : s.Conserved capacity) :
    ∀ g ∈ s.guards, g.1 ≠ s.issued :=
  fun g hg => Nat.ne_of_lt (h.lt_issued g hg)

theorem Conserved.acquire
    (h : s.Conserved capacity) :
    (s.step .acquire).2.Conserved capacity := by
  have hnumbered : (s.issued :: s.guards.map Prod.fst).Nodup := by
    refine List.nodup_cons.2 ⟨?_, h.numbered⟩
    intro hmem
    obtain ⟨g, hg, heq⟩ := List.mem_map.1 hmem
    exact h.ne_issued g hg heq
  have hissued : ∀ slot : Slot α, ∀ g ∈ (s.issued, slot) :: s.guards, g.1 < s.issued + 1 := by
    intro slot g hg
    rcases List.mem_cons.1 hg with rfl | hg
    · exact Nat.lt_succ_self _
    · exact Nat.lt_succ_of_lt (h.lt_issued g hg)
  have hplaced := h.placed
  have hidle := h.idle_le
  have hcreated := h.created_eq
  rw [step_acquire]
  cases hp : s.pool.idle with
  | nil =>
      -- The new value has the least serial number that is in none of the places so far.
      rw [acquire_of_nil hp]
      rw [hp] at hplaced hidle hcreated
      refine ⟨h.capacity_eq, hnumbered, hissued _, ?_, ?_, ?_, ?_, ?_⟩
      · intro serial
        have := hplaced serial
        simp only [hp, serials, List.map_cons, List.count_cons, List.map_nil, List.count_nil,
          beq_iff_eq] at this ⊢
        split at this <;> split <;> split <;> omega
      · simpa only [hp] using hidle
      · simp only [List.length_cons, h.inUse_eq]
      · simp only [hp, List.length_nil] at hcreated ⊢
        omega
      · simp only [hp]
        intro other hother
        cases hother
  | cons slot idle =>
      rw [acquire_of_cons hp]
      rw [hp] at hplaced hidle hcreated
      refine ⟨h.capacity_eq, hnumbered, hissued _, ?_, ?_, ?_, ?_, ?_⟩
      · intro serial
        have := hplaced serial
        simp only [serials, List.map_cons, List.count_cons] at this ⊢
        omega
      · exact Nat.le_of_succ_le hidle
      · simp only [List.length_cons, h.inUse_eq]
      · simp only [List.length_cons] at hcreated ⊢
        omega
      · intro other hother
        exact h.idle_fit other (hp ▸ List.mem_cons_of_mem slot hother)

theorem Conserved.write
    (h : s.Conserved capacity)
    (change : α → α)
    (hslot : s.slot? guard = some slot) :
    (s.step (.write guard change)).2.Conserved capacity := by
  obtain ⟨earlier, later, hguards, -, hupdate⟩ := exists_split h.numbered hslot
  have hnumbers :
      (update s.guards guard { slot with value := change slot.value }).map Prod.fst =
        s.guards.map Prod.fst := by
    rw [hupdate, hguards, List.map_append, List.map_append]
    rfl
  have hserials :
      serials (update s.guards guard { slot with value := change slot.value }) =
        serials s.guards := by
    rw [hupdate, hguards, serials, serials, List.map_append, List.map_append]
    rfl
  have hlength :
      (update s.guards guard { slot with value := change slot.value }).length =
        s.guards.length :=
    List.length_map _
  rw [step_write change hslot]
  refine ⟨h.capacity_eq, hnumbers ▸ h.numbered, ?_, hserials ▸ h.placed, h.idle_le,
    h.inUse_eq.trans hlength.symm, h.created_eq, h.idle_fit⟩
  intro g hg
  obtain ⟨g', hg', hnumber⟩ := List.mem_map.1 (hnumbers ▸ List.mem_map_of_mem hg)
  rw [← hnumber]
  exact h.lt_issued g' hg'

theorem Conserved.release
    (h : s.Conserved capacity)
    (hslot : s.slot? guard = some slot) :
    (s.step (.release guard)).2.Conserved capacity := by
  obtain ⟨earlier, later, hguards, hforget, -⟩ := exists_split h.numbered hslot
  have hsub : (earlier ++ later).Sublist s.guards := by
    rw [hguards]
    exact (List.Sublist.refl earlier).append (List.sublist_cons_self _ _)
  have hnumbered : ((earlier ++ later).map Prod.fst).Nodup :=
    h.numbered.sublist (hsub.map _)
  have hissued : ∀ g ∈ earlier ++ later, g.1 < s.issued :=
    fun g hg => h.lt_issued g (hsub.subset hg)
  have hplaced := h.placed
  have hinUse := h.inUse_eq
  have hcreated := h.created_eq
  rw [hguards] at hplaced hinUse
  simp only [List.length_append, List.length_cons] at hinUse
  rw [step_release hslot, hforget, giveBack, hasRoom]
  by_cases hroom : s.pool.idle.length < s.pool.capacity
  · rw [release_of_room slot hroom, decide_eq_true hroom, if_pos rfl]
    refine ⟨h.capacity_eq, hnumbered, hissued, ?_, ?_, ?_, ?_, ?_⟩
    · -- The value moves from one place to another, so the sum stays.
      intro serial
      have := hplaced serial
      simp only [serials, List.map_cons, List.map_append, List.count_cons,
        List.count_append] at this ⊢
      omega
    · exact h.capacity_eq ▸ hroom
    · simp only [List.length_append]
      omega
    · simp only [List.length_cons]
      omega
    · intro other hother
      rcases List.mem_cons.1 hother with rfl | hother
      · exact Or.inr ⟨slot.value, rfl⟩
      · exact h.idle_fit other hother
  · rw [release_of_full slot hroom, decide_eq_false hroom, if_neg Bool.false_ne_true]
    refine ⟨h.capacity_eq, hnumbered, hissued, ?_, h.idle_le, ?_, ?_, h.idle_fit⟩
    · intro serial
      have := hplaced serial
      simp only [serials, List.map_cons, List.map_append, List.count_cons,
        List.count_append] at this ⊢
      omega
    · simp only [List.length_append]
      omega
    · simp only [List.length_cons]
      omega

theorem slot?_acquire
    (s : Session α) :
    (s.step .acquire).2.slot? s.issued = some s.pool.acquire.1 := by
  rw [step_acquire, slot?, List.lookup_cons_self]

theorem slot?_acquire_write
    (s : Session α)
    (change : α → α) :
    ((s.step .acquire).2.step (.write s.issued change)).2.slot? s.issued =
      some { s.pool.acquire.1 with value := change s.pool.acquire.1.value } := by
  rw [step_write change s.slot?_acquire, slot?, step_acquire, update_cons_self,
    List.lookup_cons_self]

/-- The session after a value has been acquired, changed and released. -/
def loan
    (s : Session α)
    (change : α → α) : Session α :=
  (((s.step .acquire).2.step (.write s.issued change)).2.step (.release s.issued)).2

/-- A panic is a loan whose guard takes no number. -/
theorem Conserved.step_panic
    (h : s.Conserved capacity)
    (change : α → α) :
    (s.step (.panic change)).2 = { s.loan change with issued := s.issued } := by
  rw [loan, step_release (s.slot?_acquire_write change), step_write change s.slot?_acquire,
    step_acquire]
  simp only [update_cons_self, forget_cons_self, update_of_forall_ne _ h.ne_issued,
    forget_of_forall_ne h.ne_issued]
  rfl

theorem Conserved.panic
    (h : s.Conserved capacity)
    (change : α → α) :
    (s.step (.panic change)).2.Conserved capacity := by
  have hloan : (s.loan change).Conserved capacity :=
    (h.acquire.write change s.slot?_acquire).release (s.slot?_acquire_write change)
  have hissued : ∀ g ∈ (s.step (.panic change)).2.guards, g.1 < s.issued := h.lt_issued
  rw [h.step_panic change] at hissued ⊢
  exact ⟨hloan.capacity_eq, hloan.numbered, hissued, hloan.placed, hloan.idle_le,
    hloan.inUse_eq, hloan.created_eq, hloan.idle_fit⟩

/-- Every operation keeps what holds of a session. -/
theorem Conserved.step
    (h : s.Conserved capacity)
    (operation : Operation α) :
    (s.step operation).2.Conserved capacity := by
  cases operation with
  | acquire => exact h.acquire
  | write guard change =>
      cases hslot : s.slot? guard with
      | none => simpa only [Session.step, hslot] using h
      | some slot => exact h.write change hslot
  | read guard =>
      cases hslot : s.slot? guard with
      | none => simpa only [Session.step, hslot] using h
      | some slot => simpa only [Session.step, hslot] using h
  | release guard =>
      cases hslot : s.slot? guard with
      | none => simpa only [Session.step, hslot] using h
      | some slot => exact h.release hslot
  | panic change => exact h.panic change

theorem Conserved.run
    (h : s.Conserved capacity)
    (operations : List (Operation α)) :
    (s.run operations).2.Conserved capacity := by
  induction operations generalizing s with
  | nil => exact h
  | cons operation operations ih => exact ih (h.step operation)

/-- A value that is about to be lent has not been freed, and no guard holds it. -/
theorem Conserved.acquire_apart
    (h : s.Conserved capacity) :
    s.pool.acquire.1.serial ∉ s.freed ∧ s.pool.acquire.1.serial ∉ serials s.guards := by
  have hplaced := h.acquire.placed s.pool.acquire.1.serial
  rw [step_acquire] at hplaced
  simp only [serials, List.map_cons, List.count_cons_self] at hplaced
  rw [← List.count_eq_zero, ← List.count_eq_zero, serials]
  split at hplaced <;> omega

theorem Conserved.inUse_pos
    (h : s.Conserved capacity)
    (hslot : s.slot? guard = some slot) :
    0 < s.pool.inUse := by
  obtain ⟨earlier, later, hguards, -⟩ := exists_split h.numbered hslot
  rw [h.inUse_eq, hguards, List.length_append, List.length_cons]
  omega

end Steps

section Freed

variable (s : Session α)

theorem freed_giveBack
    (slot : Slot α) :
    s.freed <:+ (s.giveBack slot).freed := by
  rw [giveBack]
  split
  · exact List.suffix_rfl
  · exact List.suffix_cons _ _

/-- What has been freed stays freed. -/
theorem freed_step
    (operation : Operation α) :
    s.freed <:+ (s.step operation).2.freed := by
  cases operation with
  | acquire => exact List.suffix_rfl
  | write guard change =>
      cases hslot : s.slot? guard <;> simp only [step, hslot] <;> exact List.suffix_rfl
  | read guard =>
      cases hslot : s.slot? guard <;> simp only [step, hslot] <;> exact List.suffix_rfl
  | release guard =>
      cases hslot : s.slot? guard with
      | none => simp only [step, hslot]; exact List.suffix_rfl
      | some slot =>
          rw [step_release hslot]
          exact freed_giveBack { s with guards := forget s.guards guard } slot
  | panic change => exact freed_giveBack { s with pool := s.pool.acquire.2 } _

theorem freed_run
    (operations : List (Operation α)) :
    s.freed <:+ (s.run operations).2.freed := by
  induction operations generalizing s with
  | nil => exact List.suffix_rfl
  | cons operation operations ih =>
      exact (s.freed_step operation).trans (ih (s.step operation).2)

end Freed

theorem Fit.eq_fresh
    [LawfulResettable α]
    {value : α}
    (h : Fit value) :
    value = Resettable.fresh := by
  rcases h with hfresh | ⟨used, hreset⟩
  · exact hfresh
  · exact hreset.trans (LawfulResettable.reset_eq_fresh used)

/-- **Conservation.**  After any run every value that has been made is in one place, and the counters
count the places; what is lent next is neither lent nor freed, and what is freed stays so; a guard
that can be released is counted as in use; a panic goes through no states but those of a loan; and
idle messages are blank. -/
theorem run_conserved
    (capacity : Nat)
    (operations : List (Operation α)) :
    let s := ((ofCapacity capacity : Session α).run operations).2
    s.Conserved capacity ∧
    (s.pool.acquire.1.serial ∉ s.freed ∧ s.pool.acquire.1.serial ∉ serials s.guards) ∧
    (∀ further, s.freed <:+ (s.run further).2.freed) ∧
    (∀ guard slot, s.slot? guard = some slot → 0 < s.pool.inUse) ∧
    (∀ change, (s.step (.panic change)).2 = { s.loan change with issued := s.issued }) ∧
    (∀ uses : List (Operation Message),
      ∀ slot ∈ ((ofCapacity capacity : Session Message).run uses).2.pool.idle,
        slot.value = Message.blank) := by
  intro s
  have hs : s.Conserved capacity := (conserved_ofCapacity capacity).run operations
  refine ⟨hs, hs.acquire_apart, s.freed_run, fun _ _ => hs.inUse_pos, hs.step_panic, ?_⟩
  intro uses slot hslot
  have huses : ((ofCapacity capacity : Session Message).run uses).2.Conserved capacity :=
    (conserved_ofCapacity capacity).run uses
  exact (huses.idle_fit slot hslot).eq_fresh

end Conservation

end Session
end Pool
end PushGate
