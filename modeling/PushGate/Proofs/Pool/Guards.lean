import PushGate.Pool.Session

/-!
# The guards of a session

No two live guards have the same number.  So a number names at most one of them, and a change to its
slot or its release is a change at one place of the list.

**Results.**
* `exists_split`: the place of a live guard, with what a change and a release make of the list.
-/

namespace PushGate
namespace Pool
namespace Session

section Guards

variable {α : Type}

/-- The serial numbers of the values that are held by guards. -/
def serials (guards : List (Nat × Slot α)) : List Nat :=
  guards.map fun g => g.2.serial

theorem forget_of_forall_ne
    {guards : List (Nat × Slot α)}
    {guard : Nat}
    (h : ∀ g ∈ guards, g.1 ≠ guard) :
    forget guards guard = guards := by
  rw [forget, List.filter_eq_self]
  intro g hg
  exact bne_iff_ne.2 (h g hg)

theorem update_of_forall_ne
    {guards : List (Nat × Slot α)}
    {guard : Nat}
    (slot : Slot α)
    (h : ∀ g ∈ guards, g.1 ≠ guard) :
    update guards guard slot = guards := by
  have hid : update guards guard slot = guards.map id := by
    apply List.map_congr_left
    intro g hg
    exact if_neg (h g hg)
  rw [hid, List.map_id]

theorem forget_append
    (earlier later : List (Nat × Slot α))
    (guard : Nat) :
    forget (earlier ++ later) guard = forget earlier guard ++ forget later guard :=
  List.filter_append ..

theorem update_append
    (earlier later : List (Nat × Slot α))
    (guard : Nat)
    (slot : Slot α) :
    update (earlier ++ later) guard slot =
      update earlier guard slot ++ update later guard slot :=
  List.map_append ..

theorem forget_cons_self
    (guards : List (Nat × Slot α))
    (guard : Nat)
    (slot : Slot α) :
    forget ((guard, slot) :: guards) guard = forget guards guard := by
  simp [forget]

theorem update_cons_self
    (guards : List (Nat × Slot α))
    (guard : Nat)
    (slot changed : Slot α) :
    update ((guard, slot) :: guards) guard changed =
      (guard, changed) :: update guards guard changed := by
  simp [update]

theorem lookup_cons_of_ne
    {guard other : Nat}
    (h : guard ≠ other)
    (slot : Slot α)
    (guards : List (Nat × Slot α)) :
    ((other, slot) :: guards).lookup guard = guards.lookup guard := by
  rw [List.lookup_cons, beq_false_of_ne h]

theorem lookup_forget_self
    (guards : List (Nat × Slot α))
    (guard : Nat) :
    (forget guards guard).lookup guard = none := by
  rw [List.lookup_eq_none_iff]
  intro g hg
  have hne := (List.mem_filter.1 hg).2
  rw [bne_iff_ne] at hne
  exact bne_iff_ne.2 hne.symm

theorem lookup_forget_of_ne
    {guard other : Nat}
    (h : guard ≠ other)
    (guards : List (Nat × Slot α)) :
    (forget guards other).lookup guard = guards.lookup guard := by
  induction guards with
  | nil => rfl
  | cons g guards ih =>
      obtain ⟨number, slot⟩ := g
      by_cases hother : number = other
      · subst hother
        rw [forget_cons_self, lookup_cons_of_ne h, ih]
      · have hkept : forget ((number, slot) :: guards) other =
            (number, slot) :: forget guards other :=
          List.filter_cons_of_pos (bne_iff_ne.2 hother)
        rw [hkept, List.lookup_cons, List.lookup_cons, ih]

theorem lookup_update_self
    {guards : List (Nat × Slot α)}
    {guard : Nat}
    {slot : Slot α}
    (changed : Slot α)
    (h : guards.lookup guard = some slot) :
    (update guards guard changed).lookup guard = some changed := by
  induction guards with
  | nil => cases h
  | cons g guards ih =>
      obtain ⟨number, held⟩ := g
      by_cases hguard : number = guard
      · subst hguard
        rw [update_cons_self, List.lookup_cons_self]
      · have hkept : update ((number, held) :: guards) guard changed =
            (number, held) :: update guards guard changed := by
          simp [update, hguard]
        rw [lookup_cons_of_ne (Ne.symm hguard)] at h
        rw [hkept, lookup_cons_of_ne (Ne.symm hguard), ih h]

theorem lookup_update_of_ne
    {guard other : Nat}
    (h : guard ≠ other)
    (guards : List (Nat × Slot α))
    (changed : Slot α) :
    (update guards other changed).lookup guard = guards.lookup guard := by
  induction guards with
  | nil => rfl
  | cons g guards ih =>
      obtain ⟨number, slot⟩ := g
      by_cases hother : number = other
      · subst hother
        rw [update_cons_self, lookup_cons_of_ne h, lookup_cons_of_ne h, ih]
      · have hkept : update ((number, slot) :: guards) other changed =
            (number, slot) :: update guards other changed := by
          simp [update, hother]
        rw [hkept, List.lookup_cons, List.lookup_cons, ih]

/-- A live guard stands at one place of the list; a change changes the list there, and a release
takes that place out. -/
theorem exists_split
    {guards : List (Nat × Slot α)}
    {guard : Nat}
    {slot : Slot α}
    (hnumbered : (guards.map Prod.fst).Nodup)
    (h : guards.lookup guard = some slot) :
    ∃ earlier later,
      guards = earlier ++ (guard, slot) :: later ∧
      forget guards guard = earlier ++ later ∧
      ∀ changed, update guards guard changed = earlier ++ (guard, changed) :: later := by
  obtain ⟨earlier, later, rfl, -⟩ := List.lookup_eq_some_iff.1 h
  rw [List.map_append, List.map_cons, List.nodup_append] at hnumbered
  obtain ⟨-, hlater, hapart⟩ := hnumbered
  have hearlier : ∀ g ∈ earlier, g.1 ≠ guard := by
    intro g hg
    exact hapart g.1 (List.mem_map_of_mem hg) guard List.mem_cons_self
  have hlater : ∀ g ∈ later, g.1 ≠ guard := by
    rintro g hg rfl
    exact (List.nodup_cons.1 hlater).1 (List.mem_map.2 ⟨g, hg, rfl⟩)
  refine ⟨earlier, later, rfl, ?_, ?_⟩
  · rw [forget_append, forget_cons_self, forget_of_forall_ne hearlier,
      forget_of_forall_ne hlater]
  · intro changed
    rw [update_append, update_cons_self, update_of_forall_ne changed hearlier,
      update_of_forall_ne changed hlater]

end Guards

end Session
end Pool
end PushGate
