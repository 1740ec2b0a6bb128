import DerivedTypes.Proofs.Ownership.Deallocation

namespace DerivedTypes

/-!
# The ledger of the allocator

What the allocator did tells which blocks are live, as long as only live blocks were freed, with the
sizes that they were allocated with.

* `HeapUse.balance`: the live blocks after all that the allocator did, if all of it was right;
* `Machine.Accounts`: all of it was right, and the blocks on the heap are the live ones, each at a
  place of its own. An allocation adds one block (`Accounts.allocate`), and a release takes those of
  a tree away (`Accounts.release`).
-/

namespace HeapUse

/-- The live blocks with their sizes after one more use of the allocator, if the use is right: a new
    block has a number of its own, and a freed block is live and as large as it was when it was
    allocated. -/
def settle (live : List (Nat × Nat)) : HeapUse → Option (List (Nat × Nat))
  | allocated block size => if block ∈ live.map (·.1) then none else some ((block, size) :: live)
  | freed block size => if (block, size) ∈ live then some (live.erase (block, size)) else none

/-- The live blocks after all uses of the allocator, if every use is right. -/
def balance (log : List HeapUse) : Option (List (Nat × Nat)) :=
  log.foldlM settle []

variable {log earlier later : List HeapUse} {live others freed : List (Nat × Nat)}
  {block size : Nat}

/-- Accounts are settled in order. -/
theorem balance_append (first second : List HeapUse) :
    balance (first ++ second) = (balance first).bind (second.foldlM settle) := by
  rw [balance, List.foldlM_append]
  rfl

/-- A new block comes on top. -/
theorem balance_append_allocated (settled : balance log = some live)
    (new : block ∉ live.map (·.1)) :
    balance (log ++ [allocated block size]) = some ((block, size) :: live) := by
  rw [balance_append, settled, Option.bind_some, List.foldlM_cons, settle, if_neg new]
  rfl

/-- Live blocks may be freed one after the other. -/
theorem exists_foldlM_freed (blocks : live.Perm (freed ++ others)) :
    ∃ left, (freed.map fun b => HeapUse.freed b.1 b.2).foldlM settle live = some left ∧
      left.Perm others := by
  induction freed generalizing live with
  | nil => exact ⟨live, rfl, blocks⟩
  | cons b rest ih =>
    -- The first block is live, and without it the others are still live.
    have there : b ∈ live := blocks.mem_iff.mpr (List.mem_append_left _ List.mem_cons_self)
    have without : (live.erase b).Perm (rest ++ others) := by
      have fewer := blocks.erase b
      rwa [List.cons_append, List.erase_cons_head] at fewer
    obtain ⟨left, settled, same⟩ := ih without
    refine ⟨left, ?_, same⟩
    rw [List.map_cons, List.foldlM_cons, settle, if_pos there]
    exact settled

/-- In a log that is right, a freed block was live until then, with the size with which it was
    freed. -/
theorem exists_balance_of_freed
    (settled : balance (earlier ++ HeapUse.freed block size :: later) = some live) :
    ∃ before, balance earlier = some before ∧ (block, size) ∈ before := by
  -- The log up to this use was right as well, so there is a balance to look the block up in.
  rw [balance_append] at settled
  obtain ⟨before, first, rest⟩ := Option.bind_eq_some_iff.mp settled
  refine ⟨before, first, ?_⟩
  rw [List.foldlM_cons, settle] at rest
  by_contra dead
  rw [if_neg dead] at rest
  cases rest

end HeapUse

/-- Every use of the allocator so far was right, and these are the blocks on the heap, with their
    sizes. Pointers to them find them. -/
structure Machine.Accounts (M : Machine) (blocks : List (Nat × Nat)) : Prop where
  placed : M.memory.WellPlaced
  balance : ∃ live, HeapUse.balance M.heapLog = some live ∧ live.Perm blocks
  distinct : (blocks.map (·.1)).Nodup
  mem_iff : ∀ block size,
    (block, size) ∈ blocks ↔ (M.memory.region? (.heap block)).map (·.size) = some size

namespace Machine.Accounts

variable {M M' : Machine} {blocks blocks' others : List (Nat × Nat)}

/-- In which order blocks are listed does not matter. -/
theorem perm (h : M.Accounts blocks) (same : blocks.Perm blocks') : M.Accounts blocks' where
  placed := h.placed
  balance := by
    obtain ⟨live, settled, perm⟩ := h.balance
    exact ⟨live, settled, perm.trans same⟩
  distinct := (same.map _).nodup_iff.mp h.distinct
  mem_iff := fun block size => by rw [← same.mem_iff, h.mem_iff]

/-- Accounts do not depend on the bytes in the blocks. -/
theorem congr (h : M.Accounts blocks) (shape : M.memory.SameShape M'.memory)
    (log : M'.heapLog = M.heapLog) : M'.Accounts blocks where
  placed := h.placed.congr shape
  balance := by
    rw [log]
    exact h.balance
  distinct := h.distinct
  mem_iff := fun block size => by rw [h.mem_iff, shape.size]

/-- The number of the next block is not in use. -/
theorem not_mem_next (h : M.Accounts blocks) : M.memory.heap.size ∉ blocks.map (·.1) := by
  intro mem
  obtain ⟨⟨block, size⟩, there, same⟩ := List.mem_map.mp mem
  obtain ⟨bytes, region, _⟩ := Option.map_eq_some_iff.mp ((h.mem_iff block size).mp there)
  have lt := Memory.lt_of_region?_heap region
  exact absurd same (Nat.ne_of_lt lt)

/-- A new block comes on the account. -/
theorem allocate (h : M.Accounts blocks) {size : Nat} {s : Stretch}
    (hasRoom : M.memory.HasRoom size s) (positive : 0 < size)
    (log : M'.heapLog = M.heapLog ++ [.allocated M.memory.heap.size size])
    (shape : (M.memory.allocate size s).2.SameShape M'.memory) :
    M'.Accounts ((M.memory.heap.size, size) :: blocks) where
  placed := (h.placed.allocate hasRoom positive).congr shape
  balance := by
    obtain ⟨live, settled, perm⟩ := h.balance
    refine ⟨_ :: live, ?_, perm.cons _⟩
    rw [log]
    refine HeapUse.balance_append_allocated settled fun mem => h.not_mem_next ?_
    exact (perm.map _).mem_iff.mp mem
  distinct := List.nodup_cons.mpr ⟨h.not_mem_next, h.distinct⟩
  mem_iff := by
    intro block n
    rw [List.mem_cons, shape.size, Memory.region?_allocate, h.mem_iff]
    by_cases new : block = M.memory.heap.size
    · subst new
      rw [if_pos rfl, Memory.region?_heap_of_le (Nat.le_refl _)]
      simp [Block.zeroed, eq_comm]
    · rw [if_neg (by simpa using new)]
      simp [new]

/-- The blocks of a tree that was released are off the account. -/
theorem release (h : M.Accounts blocks) {tree : Forest} {slots : List Address}
    (split : blocks.Perm (tree.blocks ++ others)) (released : M.Releases M' tree slots) :
    M'.Accounts others := by
  obtain ⟨freed, log, same, _, memory⟩ := released
  have split' := h.perm split
  have distinct := split'.distinct
  rw [List.map_append] at distinct
  obtain ⟨_, distinctOthers, apart⟩ := List.nodup_append.mp distinct
  -- Outside the tree all blocks are as large as they were.
  have sizes (block : Nat) (outside : block ∉ tree.numbers) :
      (M'.memory.region? (.heap block)).map (·.size) =
      (M.memory.region? (.heap block)).map (·.size) :=
    memory.size (.heap block) fun b mem same => outside (by cases same; exact mem)
  refine ⟨?_, ?_, distinctOthers, fun block size => ?_⟩
  · exact h.placed.mono memory.placement memory.tables fun block live => by
      by_cases inTree : block ∈ tree.numbers
      · rw [memory.gone block inTree] at live
        cases live
      · rwa [Memory.isSome_region?_of_size (sizes block inTree)] at live
  · -- The allocator saw the blocks of the tree in another order than the accounts have them.
    obtain ⟨live, settled, perm⟩ := split'.balance
    obtain ⟨left, settled', perm'⟩ :=
      HeapUse.exists_foldlM_freed (perm.trans (same.symm.append_right _))
    refine ⟨left, ?_, perm'⟩
    rw [log, HeapUse.balance_append, settled]
    exact settled'
  · by_cases inTree : block ∈ tree.numbers
    · rw [memory.gone block inTree]
      constructor
      · intro mem
        exact absurd rfl (apart block inTree block (List.mem_map_of_mem mem))
      · intro none
        cases none
    · rw [sizes block inTree, ← split'.mem_iff, List.mem_append]
      constructor
      · exact .inr
      · rintro (mem | mem)
        · exact absurd (List.mem_map_of_mem mem) inTree
        · exact mem

/-- An empty heap has empty accounts. -/
theorem of_empty (apart : TablesApart M.memory.placement.table M.memory.tables.size)
    (log : M.heapLog = []) (heap : M.memory.heap = #[]) : M.Accounts [] where
  placed := ⟨apart, fun block live => by simp [Memory.region?, heap] at live⟩
  balance := ⟨[], by rw [log]; rfl, .refl _⟩
  distinct := List.nodup_nil
  mem_iff := fun block size => by simp [Memory.region?, heap]

end Machine.Accounts

end DerivedTypes
