import DerivedTypes.Proofs.Allocation.Cases
import DerivedTypes.Proofs.Descriptor.Bounds
import DerivedTypes.Recording

namespace DerivedTypes

/-!
# Allocations that fail

An allocation fails before the allocator is asked, and then it has done nothing, or because the
allocator refuses, and then the variable has the new bounds already. `allocate_error_unchanged_iff`
says exactly when a failed allocation leaves the variable as it was.
-/

namespace Descriptor

variable {env : Environment} {d d' : Descriptor} {lower upper : List Subscript} {M M' : Machine}

/-- A failed allocation changes no memory, adds no block and calls nothing, and of the variable it
    changes at most the bounds. It leaves the variable as it was exactly when it failed before the
    allocator was asked, or when the bounds were there already. -/
theorem allocate_error_unchanged_iff {e : StatError}
    (failed : d.allocate env lower upper M = .ok (d', .error e) M') :
    M'.memory = M.memory ∧ M'.heapLog = M.heapLog ∧ M'.calls = M.calls ∧
      (∃ slots, d' = { d with dimensionSlots := slots }) ∧
      (d' = d ↔ d.allocationSize lower upper = .error e ∨ d.setBounds lower upper = .ok d) := by
  cases asked : d.allocationSize lower upper with
  | error cause =>
    rw [allocate_of_error asked] at failed
    cases failed
    exact ⟨rfl, rfl, rfl, ⟨d.dimensionSlots, by cases d; rfl⟩, by simp⟩
  | ok size =>
    cases granted : env.grants M size with
    | true => exact absurd failed (allocate_ne_error_of_granted asked granted)
    | false =>
      cases bounds : d.setBounds lower upper with
      | error fault =>
        -- Without new bounds the statement does not end.
        unfold allocate at failed
        rw [asked, bounds] at failed
        cases fault <;> cases failed
      | ok bounded =>
        rw [allocate_of_refused asked bounds granted] at failed
        cases failed
        obtain ⟨slots, same⟩ := eq_of_setBounds bounds
        refine ⟨rfl, ?_, ?_, ⟨slots, same⟩, ?_⟩
        · simp [Event.heapUse?]
        · simp [Event.call?]
        · simp

/-- A refusal of forty bytes, where the allocator has sixteen, changes the bounds and nothing
    else. -/
theorem refused_variable_changes_bounds : ∃ (d d' : Descriptor) (M M' : Machine),
    d.allocate (.ofRecordings .host false #[] 16) [1] [5] M = .ok (d', .error .outOfMemory) M' ∧
    M'.memory = M.memory ∧ M'.heapLog = M.heapLog ∧ M'.calls = M.calls ∧
    (∃ slots, d' = { d with dimensionSlots := slots }) ∧
    (d' = d ↔ d.allocationSize [1] [5] = .error .outOfMemory ∨ d.setBounds [1] [5] = .ok d) := by
  have request : { zeroed with attr := .allocatable, rank := 1, elementSize := 8 }.allocate
      (.ofRecordings .host false #[] 16) [1] [5] ⟨.ofBuffers default #[] [], #[]⟩ =
      .ok (_, .error .outOfMemory) _ := rfl
  exact ⟨_, _, _, _, request, allocate_error_unchanged_iff request⟩

/-- A fresh variable of rank 1 asks for five elements of eight bytes, and the allocator has sixteen
    bytes: the variable is not what it was before. -/
theorem refused_variable_ne : ∃ (d d' : Descriptor) (M' : Machine),
    zeroed.initIntrinsic ⟨.real, 8⟩ 1 = .ok d ∧
    d.allocate (.ofRecordings .host false #[] 16) [1] [5] ⟨.ofBuffers default #[] [], #[]⟩ =
      .ok (d', .error .outOfMemory) M' ∧
    d' ≠ d := by
  refine ⟨_, _, _, rfl, rfl, ?_⟩
  intro same
  have extents := congrArg Descriptor.dimensions same
  revert extents
  decide

end Descriptor

end DerivedTypes
