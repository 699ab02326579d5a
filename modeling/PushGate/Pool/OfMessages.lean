import PushGate.Message.Basic
import PushGate.Pool.Basic

/-!
# Pools of messages

Messages are used again after a reset, which leaves nothing of their content behind.
-/

namespace PushGate

/-- A type whose reset leads back to the fresh value. -/
class LawfulResettable (α : Type) [Resettable α] : Prop where
  reset_eq_fresh : ∀ a : α, Resettable.reset a = Resettable.fresh

instance : Resettable Message where
  fresh := .blank
  reset := Message.reset

instance : LawfulResettable Message where
  reset_eq_fresh := Message.reset_eq_blank

namespace Pool

/-- Every idle value is as good as new. -/
def Clean {α : Type} [Resettable α] (p : Pool α) : Prop :=
  ∀ slot ∈ p.idle, slot.value = Resettable.fresh

section

variable {α : Type} [Resettable α]

theorem clean_ofCapacity (capacity : Nat) : (ofCapacity capacity : Pool α).Clean := by
  intro slot h
  simp only [ofCapacity, List.mem_map] at h
  obtain ⟨serial, _, rfl⟩ := h
  rfl

/-- A clean pool lends a value that is as good as new. -/
theorem Clean.acquire_value {p : Pool α} (h : p.Clean) :
    p.acquire.1.value = Resettable.fresh := by
  unfold Pool.acquire
  split
  · rename_i slot idle hidle
    exact h slot (by simp [hidle])
  · rfl

end

end Pool
end PushGate
