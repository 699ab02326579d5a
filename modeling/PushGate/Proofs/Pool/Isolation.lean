import PushGate.Message.Decoder
import PushGate.Proofs.Pool.Conservation

/-!
# Isolation of guards

The value of a guard is what has been written through that guard makes of a fresh value.  Neither
what other guards have been used for in the meantime nor what the value held in earlier uses has any
part in it.

An operation changes the slot of a live guard only by a write through it; a guard comes into being
by an acquisition, with a fresh value; and a guard that is no more does not come back.

**Results.**
* `slot?_step`: where the slot of a live guard comes from.
* `slot?_run`: what a run makes of the slot of a guard that lives on.
* `run_isolated`: the value of a guard, from its acquisition on.
-/

namespace PushGate
namespace Pool

/-- What an operation makes of the value of a guard. -/
def Operation.effect
    {α : Type}
    (guard : Nat) :
    Operation α → α → α
  | .write other change => if other = guard then change else id
  | _ => id

/-- A push is decoded into the message of a guard. -/
def Operation.decode
    (guard : Nat)
    (bytes : Bytes) :
    Operation Message :=
  .write guard fun m => (Decoder.decode m bytes).message

namespace Session

section Isolation

variable {α : Type}

/-- What operations make of the value of a guard, one after the other. -/
def effects
    (guard : Nat)
    (operations : List (Operation α))
    (value : α) : α :=
  operations.foldl (fun value operation => operation.effect guard value) value

/-- Nothing of what a message held is left where a push has been decoded into it. -/
theorem effects_decode
    (guard : Nat)
    (operations : List (Operation Message))
    (bytes : Bytes)
    (m : Message) :
    effects guard (operations ++ [.decode guard bytes]) m =
      (Decoder.decode .blank bytes).message := by
  rw [effects, List.foldl_append, List.foldl_cons, List.foldl_nil, Operation.decode,
    Operation.effect, if_pos rfl, Decoder.decode_eq]

variable [Resettable α] {s : Session α} {guard : Nat} {slot : Slot α}

theorem run_append
    (s : Session α)
    (before after : List (Operation α)) :
    (s.run (before ++ after)).2 = ((s.run before).2.run after).2 := by
  induction before generalizing s with
  | nil => rfl
  | cons operation before ih => exact ih (s.step operation).2

theorem issued_step_le
    (s : Session α)
    (operation : Operation α) :
    s.issued ≤ (s.step operation).2.issued := by
  cases operation with
  | acquire => exact Nat.le_succ s.issued
  | write guard change => cases hslot : s.slot? guard <;> simp only [step, hslot, Nat.le_refl]
  | read guard => cases hslot : s.slot? guard <;> simp only [step, hslot, Nat.le_refl]
  | release guard =>
      cases hslot : s.slot? guard <;> simp only [step, hslot, giveBack, Nat.le_refl]
  | panic change => exact Nat.le_refl s.issued

/-- A guard that is live after an operation was live before it and has the same slot, up to what is
written through the guard; or it has just been acquired. -/
theorem slot?_step
    (operation : Operation α)
    (hslot : (s.step operation).2.slot? guard = some slot) :
    (∃ former, s.slot? guard = some former ∧
        slot = { former with value := operation.effect guard former.value }) ∨
      operation = .acquire ∧ guard = s.issued ∧ slot = s.pool.acquire.1 := by
  -- an operation that leaves the guards as they are
  have hstays : operation.effect guard = id → s.slot? guard = some slot →
      ∃ former, s.slot? guard = some former ∧
        slot = { former with value := operation.effect guard former.value } :=
    fun heffect hformer => ⟨slot, hformer, by rw [heffect]; rfl⟩
  cases operation with
  | acquire =>
      rw [step_acquire, slot?] at hslot
      by_cases hguard : guard = s.issued
      · rw [hguard, List.lookup_cons_self] at hslot
        exact Or.inr ⟨rfl, hguard, (Option.some.inj hslot).symm⟩
      · rw [lookup_cons_of_ne hguard] at hslot
        exact Or.inl (hstays rfl hslot)
  | write other change =>
      left
      by_cases hguard : other = guard
      · subst hguard
        cases hother : s.slot? other with
        | none =>
            simp only [step, hother] at hslot
            cases hslot
        | some former =>
            rw [step_write change hother, slot?, lookup_update_self _ hother] at hslot
            refine ⟨former, rfl, ?_⟩
            rw [Operation.effect, if_pos rfl]
            exact (Option.some.inj hslot).symm
      · refine hstays (if_neg hguard) ?_
        cases hother : s.slot? other with
        | none => simpa only [step, hother] using hslot
        | some former =>
            rwa [step_write change hother, slot?, lookup_update_of_ne (Ne.symm hguard)] at hslot
  | read other =>
      refine Or.inl (hstays rfl ?_)
      cases hother : s.slot? other <;>
      · simpa only [step, hother] using hslot
  | release other =>
      refine Or.inl (hstays rfl ?_)
      cases hother : s.slot? other with
      | none => simpa only [step, hother] using hslot
      | some former =>
          have hlookup : (forget s.guards other).lookup guard = some slot := by
            rwa [step_release hother] at hslot
          by_cases hguard : guard = other
          · rw [hguard, lookup_forget_self] at hlookup
            cases hlookup
          · rwa [lookup_forget_of_ne hguard] at hlookup
  | panic change => exact Or.inl (hstays rfl hslot)

/-- A guard that has been released does not come back. -/
theorem slot?_run_eq_none
    (hissued : guard < s.issued)
    (hslot : s.slot? guard = none)
    (operations : List (Operation α)) :
    (s.run operations).2.slot? guard = none := by
  induction operations generalizing s with
  | nil => exact hslot
  | cons operation operations ih =>
      refine ih (Nat.lt_of_lt_of_le hissued (s.issued_step_le operation)) ?_
      rw [Option.eq_none_iff_forall_ne_some]
      intro slot hlive
      rcases slot?_step operation hlive with ⟨former, hformer, -⟩ | ⟨-, hguard, -⟩
      · exact nomatch hslot.symm.trans hformer
      · exact Nat.ne_of_lt hissued hguard

/-- A guard that lives on keeps its slot, up to what is written through it. -/
theorem slot?_run
    {former : Slot α}
    (hissued : guard < s.issued)
    (hformer : s.slot? guard = some former)
    (operations : List (Operation α))
    (hslot : (s.run operations).2.slot? guard = some slot) :
    slot = { former with value := effects guard operations former.value } := by
  induction operations generalizing s former with
  | nil => exact Option.some.inj (hslot.symm.trans hformer)
  | cons operation operations ih =>
      have hissued' := Nat.lt_of_lt_of_le hissued (s.issued_step_le operation)
      cases hnext : (s.step operation).2.slot? guard with
      | none => exact nomatch hslot.symm.trans (slot?_run_eq_none hissued' hnext operations)
      | some next =>
          rcases slot?_step operation hnext with ⟨first, hfirst, rfl⟩ | ⟨-, hguard, -⟩
          · obtain rfl : former = first := Option.some.inj (hformer.symm.trans hfirst)
            exact ih hissued' hnext hslot
          · exact absurd hguard (Nat.ne_of_lt hissued)

/-- A guard that is live has been acquired. -/
theorem exists_acquisition
    (hnone : s.slot? guard = none)
    (operations : List (Operation α))
    (hslot : (s.run operations).2.slot? guard = some slot) :
    ∃ before after, operations = before ++ .acquire :: after ∧ (s.run before).2.issued = guard := by
  induction operations generalizing s with
  | nil => exact nomatch hnone.symm.trans hslot
  | cons operation operations ih =>
      cases hnext : (s.step operation).2.slot? guard with
      | none =>
          obtain ⟨before, after, rfl, hguard⟩ := ih hnext hslot
          exact ⟨operation :: before, after, rfl, hguard⟩
      | some next =>
          rcases slot?_step operation hnext with ⟨former, hformer, -⟩ | ⟨rfl, rfl, -⟩
          · exact nomatch hnone.symm.trans hformer
          · exact ⟨[], operations, rfl, rfl⟩

variable [LawfulResettable α]

/-- What a pool lends is fresh. -/
theorem Conserved.acquire_value
    {capacity : Nat}
    (h : s.Conserved capacity) :
    s.pool.acquire.1.value = Resettable.fresh := by
  have hclean : s.pool.Clean := fun slot hslot => (h.idle_fit slot hslot).eq_fresh
  exact hclean.acquire_value

/-- **Isolation.**  A guard that is live after a run has been acquired in it, and what is read
through it is what the writes through it since then have made of a fresh value; the slot is the one
that it was given. -/
theorem run_isolated
    (capacity : Nat)
    (operations : List (Operation α))
    (guard : Nat)
    (slot : Slot α)
    (hlive : ((ofCapacity capacity : Session α).run operations).2.slot? guard = some slot) :
    let after (operations : List (Operation α)) := ((ofCapacity capacity).run operations).2
    ((after operations).step (.read guard)).1 = .value slot ∧
    (∃ earlier later first,
      operations = earlier ++ .acquire :: later ∧
      ((after earlier).step .acquire).1 = .acquired guard first) ∧
    ∀ earlier later first,
      operations = earlier ++ .acquire :: later →
      ((after earlier).step .acquire).1 = .acquired guard first →
      first.value = Resettable.fresh ∧
      slot = { first with value := effects guard later Resettable.fresh } := by
  intro after
  refine ⟨?_, ?_, ?_⟩
  · simp only [step, after, hlive]
  · obtain ⟨earlier, later, hsplit, hguard⟩ := exists_acquisition rfl operations hlive
    exact ⟨earlier, later, (after earlier).pool.acquire.1, hsplit, by rw [← hguard]; rfl⟩
  · intro earlier later first hsplit hacquired
    have hconserved : (after earlier).Conserved capacity :=
      (conserved_ofCapacity capacity).run earlier
    obtain ⟨rfl, rfl⟩ : (after earlier).issued = guard ∧ (after earlier).pool.acquire.1 = first := by
      simpa only [step, Reply.acquired.injEq] using hacquired
    have hfresh := hconserved.acquire_value
    rw [hsplit, run_append] at hlive
    have hslot := slot?_run (Nat.lt_succ_self _) (after earlier).slot?_acquire later hlive
    rw [hfresh] at hslot
    exact ⟨hfresh, hslot⟩

/-- A value in its second use, while another guard is written to. -/
theorem run_isolated_second_use :
    let voice := Utf8.ofString "<xml><Recognition>a</Recognition></xml>"
    let text := Utf8.ofString "<xml><Content>b</Content></xml>"
    let operations : List (Operation Message) :=
      [.acquire, .decode 0 voice, .release 0, .acquire, .acquire, .decode 2 voice, .decode 1 text]
    ∃ slot, ((ofCapacity 1).run operations).2.slot? 1 = some slot ∧
      (((ofCapacity 1).run operations).2.step (.read 1)).1 = .value slot ∧
      slot = ⟨0, (Decoder.decode .blank text).message⟩ := by
  intro voice text operations
  obtain ⟨slot, hlive⟩ : ∃ slot, ((ofCapacity 1).run operations).2.slot? 1 = some slot :=
    ⟨_, rfl⟩
  obtain ⟨hread, -, hsince⟩ := run_isolated 1 operations 1 slot hlive
  obtain ⟨-, hslot⟩ :=
    hsince [.acquire, .decode 0 voice, .release 0] [.acquire, .decode 2 voice, .decode 1 text] _
      rfl rfl
  refine ⟨slot, hlive, hread, hslot.trans ?_⟩
  rw [← effects_decode 1 [.acquire, .decode 2 voice] text Resettable.fresh]
  rfl

end Isolation

end Session
end Pool
end PushGate
