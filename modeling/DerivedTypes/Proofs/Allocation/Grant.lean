import DerivedTypes.Proofs.Allocation.Request
import DerivedTypes.Proofs.Ownership.Established

namespace DerivedTypes

/-!
# Allocations that succeed

A granted allocation makes a new block of zeros, lets the descriptor point to it and gives the
elements their default values. The block is as large as the descriptor with its new bounds says, and
the descriptors in it are zeroed (`Descriptor.exists_allocate_of_granted`).
-/

namespace Descriptor

variable {env : Environment} {tables : Array DerivedType} {d bounded : Descriptor}
  {lower upper : List Subscript} {size : Nat} {M : Machine}

/-- A granted allocation ends well. The descriptor gets its bounds and a new block of the size that
    it says, in which all descriptors are zeroed; other regions stay as they are. -/
theorem exists_allocate_of_granted (inert : env.Inert) (sound : SoundTables tables)
    (h : d.Established tables) (asked : d.allocationSize lower upper = .ok size)
    (bounds : d.setBounds lower upper = .ok bounded) (granted : env.grants M size = true) :
    ∃ M', d.allocate env lower upper M = .ok (bounded.withStorage M.nextBlock, .ok ()) M' ∧
      (bounded.withStorage M.nextBlock).Established tables ∧
      M'.memory.Backs (bounded.withStorage M.nextBlock) M.memory.heap.size size ∧
      (∀ s ∈ (bounded.withStorage M.nextBlock).slots, M'.memory.descriptor? s = some .zeroed) ∧
      M'.heapLog = M.heapLog ++ [.allocated M.memory.heap.size size] ∧
      (M.withBlock env size).memory.SameShape M'.memory ∧
      ∀ region, region ≠ .heap M.memory.heap.size →
      M'.memory.region? region = M.memory.region? region := by
  have allocatable : bounded.isAllocatable = true := by
    obtain ⟨slots, same⟩ := eq_of_setBounds bounds
    rw [same]
    exact (of_allocationSize_eq_ok asked).1
  have fine := (h.setBounds bounds).withStorage allocatable M.nextBlock
  have typed := fine.typed sound
  have block := blockSize?_of_allocationSize asked bounds
  rw [← bounded.blockSize?_withStorage M.nextBlock] at block
  -- The elements lie in the new block, which is all zeros.
  have fits := (elements_le_blockSize block).1
  obtain ⟨M', initialized, log, shape, kept, zeroed⟩ := exists_setDefaults inert typed rfl
    (fun ty named => (fine.heapSound sound named).imp fun _ sound => sound.zeroSlots)
    (M := M.withBlockFor env size (bounded.withStorage M.nextBlock)) (M.spans_withBlock env fits)
    fun _ inside => Machine.byte?_withBlock fits inside
  refine ⟨M', ?_, fine, ?_, zeroed, ?_, shape, fun region ne => ?_⟩
  · rw [allocate_of_granted asked bounds granted]
    exact takeBlock_of_initialized initialized
  · exact ⟨allocatable, rfl, (shape.size _).trans (M.size_withBlock env size), block, typed⟩
  · rw [log, Machine.heapLog_withBlockFor]
  · -- Default initialization stays in the new block.
    rw [← M.region?_withBlock env size ne]
    exact Memory.region?_ext (shape.size region) fun offset => kept _ fun inside => ne inside.1

end Descriptor

end DerivedTypes
