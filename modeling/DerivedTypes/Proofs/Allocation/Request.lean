import DerivedTypes.Proofs.Allocation.Cases
import DerivedTypes.Proofs.DefaultValue.Completion
import DerivedTypes.Proofs.Descriptor.Bounds
import DerivedTypes.Proofs.Ownership.Holdings

namespace DerivedTypes

/-!
# What allocations ask for

An allocation asks the allocator for one block, once, or it asks for nothing. Bounds ask for a
number of elements and for a number of bytes that are told as unbounded integers
(`Descriptor.requestedCount`, `Descriptor.requestedBytes`), and these decide which of the two
happens.

* `Descriptor.exists_takeBlock_of_room`: a block that is granted and large enough is all that an
  allocation needs;
* `Descriptor.AsksFor`: what an allocation that asks for a block does, refused or granted;
* `Descriptor.allocate_of_requested`: which bounds make an allocation ask, and for what.
-/

namespace Descriptor

/-- Number of bytes that bounds ask for, as an unbounded integer. -/
def requestedBytes (d : Descriptor) (lower upper : List Subscript) : Nat :=
  requestedCount lower upper * d.elementSize.toNat

variable {env : Environment} {d d' bounded : Descriptor} {lower upper : List Subscript}
  {data : Address} {size : Nat} {outcome : Outcome} {M M' : Machine}

/-! ### Blocks that are granted -/

/-- After the request the allocator has no part in the allocation. -/
theorem heapLog_of_takeBlock (ended : d.takeBlock env data size M = .ok (d', outcome) M') :
    M'.heapLog = M.heapLog := by
  obtain ⟨_, _, initialized⟩ := eq_of_takeBlock_eq_ok ended
  rw [heapLog_of_setDefaults initialized]
  simp [Event.heapUse?]

/-- A statement that is granted a block succeeds if there is room for the elements. -/
theorem exists_takeBlock_of_room (size : Nat) (keeps : env.KeepsRoom) (typed : d.MatchesType)
    (room : M.memory.Admits data (d.elementCount * d.elementSize.toNat)) :
    ∃ M', d.takeBlock env data size M = .ok (d.withStorage data, .ok ()) M' := by
  obtain ⟨M', initialized⟩ := (d.withStorage data).exists_setDefaults_of_room
    (M := M.record (.log (.allocated size (d.withStorage data).elementCount d.typeCode)))
    keeps typed room
  exact ⟨M', takeBlock_of_initialized initialized⟩

/-! ### Requests -/

/-- The allocator is asked for unallocated allocatables and bounds for all dimensions only. -/
theorem of_allocationSize_eq_ok (asked : d.allocationSize lower upper = .ok size) :
    d.isAllocatable = true ∧ d.isAllocated = false ∧ lower.length = d.rank.toNat ∧
      upper.length = d.rank.toNat ∧ (d.boundsBytes? lower upper).bind DerivedTypes.blockSize? =
      some size := by
  unfold allocationSize at asked
  by_cases allocatable : d.isAllocatable
  · rw [if_neg (by simp [allocatable])] at asked
    by_cases allocated : d.isAllocated
    · rw [if_pos allocated] at asked
      cases asked
    · rw [if_neg allocated] at asked
      by_cases lengths : lower.length ≠ d.rank.toNat ∨ upper.length ≠ d.rank.toNat
      · rw [if_pos lengths] at asked
        cases asked
      · rw [if_neg lengths] at asked
        obtain ⟨low, high⟩ := not_or.mp lengths
        refine ⟨allocatable, by simpa using allocated, not_not.mp low, not_not.mp high, ?_⟩
        cases fits : (d.boundsBytes? lower upper).bind DerivedTypes.blockSize? with
        | none =>
          rw [fits] at asked
          cases asked
        | some bytes =>
          rw [fits] at asked
          exact congrArg some (Except.ok.inj asked)
  · rw [if_pos (by simpa using allocatable)] at asked
    cases asked

/-- With the new bounds, the descriptor describes a block of the size that the allocator is asked
    for. -/
theorem blockSize?_of_allocationSize (asked : d.allocationSize lower upper = .ok size)
    (bounds : d.setBounds lower upper = .ok d') : d'.blockSize? = some size := by
  obtain ⟨_, _, low, high, fits⟩ := of_allocationSize_eq_ok asked
  obtain ⟨bytes, predicted, block⟩ := Option.bind_eq_some_iff.mp fits
  rw [blockSize?, storageBytes?_of_setBounds bounds low high predicted]
  exact block

/-- With its new bounds, the variable asks for one block of the given size. If the request is
    refused, the statement fails. If it is granted, the statement goes on in the new block, and it
    succeeds provided that the elements fit their type and that procedures take no storage away. -/
structure AsksFor (env : Environment) (d : Descriptor) (lower upper : List Subscript) (M : Machine)
    (bounded : Descriptor) (size : Nat) : Prop where
  bounds : d.setBounds lower upper = .ok bounded
  refused : env.grants M size = false →
    d.allocate env lower upper M = .ok (bounded, .error .outOfMemory)
      (M.record (.allocationRefused size))
  granted : env.grants M size = true →
    d.allocate env lower upper M = bounded.takeBlock env M.nextBlock size (M.withBlock env size)
  succeeds : env.grants M size = true → d.MatchesType → env.KeepsRoom →
    ∃ M', d.allocate env lower upper M =
      .ok ({ bounded with base := some M.nextBlock }, .ok ()) M' ∧
      M'.heapLog = M.heapLog ++ [.allocated M.memory.heap.size size]

/-- With a size for the block, the allocator is asked for it. -/
theorem asksFor_of_allocationSize (asked : d.allocationSize lower upper = .ok size)
    (bounds : d.setBounds lower upper = .ok bounded) :
    d.AsksFor env lower upper M bounded size where
  bounds := bounds
  refused := allocate_of_refused asked bounds
  granted := allocate_of_granted asked bounds
  succeeds granted typed keeps := by
    have same : bounded.MatchesType := by
      obtain ⟨_, rfl⟩ := eq_of_setBounds bounds
      exact typed
    have room : (M.withBlock env size).memory.Admits M.nextBlock
        (bounded.elementCount * bounded.elementSize.toNat) :=
      .inr (M.spans_withBlock env
        (elements_le_blockSize (blockSize?_of_allocationSize asked bounds)).1)
    obtain ⟨M', taken⟩ := exists_takeBlock_of_room size keeps same room
    refine ⟨M', (allocate_of_granted asked bounds granted).trans taken, ?_⟩
    rw [heapLog_of_takeBlock taken, Machine.heapLog_withBlock]

/-- For an unallocated allocatable and bounds for all its dimensions, the bytes decide about the
    request. -/
theorem allocationSize_eq (allocatable : d.isAllocatable = true)
    (unallocated : d.isAllocated = false) (low : lower.length = d.rank.toNat)
    (high : upper.length = d.rank.toNat) :
    d.allocationSize lower upper =
      ((d.boundsBytes? lower upper).bind DerivedTypes.blockSize?).elim
        (.error .outOfMemory) .ok := by
  unfold allocationSize
  rw [if_neg (by simp [allocatable]), if_neg (by simp [unallocated]), if_neg (by simp [low, high])]
  cases (d.boundsBytes? lower upper).bind DerivedTypes.blockSize? <;> rfl

/-- There is no block for more bytes than the largest block has. -/
theorem blockSize?_eq_none {bytes : Nat} (large : maxBlockBytes < bytes) :
    DerivedTypes.blockSize? bytes = none := by
  unfold DerivedTypes.blockSize?
  rw [if_neg (by omega)]

/-- Allocation asks for storage when there can be such storage. If some extent is larger than all
    subscripts, or the bytes are more than any block has, the statement fails and has asked for
    nothing. If the extents, the number of elements and the number of bytes are in range, it asks
    for exactly so many bytes, and for one byte when there are none, provided that the number of
    elements along the dimensions before the first empty one is in range, too. -/
theorem allocate_of_requested (env : Environment) (M : Machine) (lower upper : List Subscript)
    (allocatable : d.isAllocatable = true) (unallocated : d.isAllocated = false)
    (rank : d.rank.toNat ≤ maxRank) (low : lower.length = d.rank.toNat)
    (high : upper.length = d.rank.toNat) :
    ((∃ n ∈ exactExtents lower upper, Subscript.maximum < n) ∨
      maxBlockBytes < d.requestedBytes lower upper →
      d.allocate env lower upper M = .ok (d, .error .outOfMemory) M) ∧
    ((∀ n ∈ exactExtents lower upper, n ≤ Subscript.maximum) →
      requestedCount lower upper < Word.limit →
      d.requestedBytes lower upper ≤ maxBlockBytes →
      0 < requestedCount lower upper ∨ Word.leadingProduct (exactExtents lower upper) < Word.limit →
      ∃ bounded, d.AsksFor env lower upper M bounded (max 1 (d.requestedBytes lower upper))) := by
  have asked := allocationSize_eq allocatable unallocated low high
  constructor
  · intro large
    refine allocate_of_error ?_
    have none : (d.boundsBytes? lower upper).bind DerivedTypes.blockSize? = none := by
      rw [Option.bind_eq_none_iff]
      intro bytes predicted
      obtain ⟨countable, _, rfl, _⟩ := boundsBytes?_eq_some_iff.mp predicted
      rcases large with ⟨n, mem, uncountable⟩ | large
      · exact absurd (countable n mem) (Int.not_le.mpr uncountable)
      · exact blockSize?_eq_none large
    rw [asked, none]
    rfl
  · intro countable few small before
    -- Without an empty dimension all dimensions come before the first one.
    have leading : Word.leadingProduct (exactExtents lower upper) < Word.limit := by
      rcases before with some | fits
      · rw [Word.leadingProduct_of_pos some]
        exact few
      · exact fits
    have word : maxBlockBytes < Word.limit := by decide
    have predicted : d.boundsBytes? lower upper = some (d.requestedBytes lower upper) :=
      boundsBytes?_eq_some_iff.mpr ⟨countable, leading, rfl, Nat.lt_of_le_of_lt small word⟩
    have block : DerivedTypes.blockSize? (d.requestedBytes lower upper) =
        some (max 1 (d.requestedBytes lower upper)) := by
      have one : 1 ≤ maxBlockBytes := by decide
      unfold DerivedTypes.blockSize?
      rw [if_pos (by omega)]
    rw [predicted, Option.bind_some, block] at asked
    obtain ⟨bounded, bounds⟩ := exists_setBounds rank lower upper
    exact ⟨bounded, asksFor_of_allocationSize asked bounds⟩

/-! ### A plane of integers -/

/-- An unallocated allocatable of rank 2. -/
def plane : Descriptor :=
  { zeroed with elementSize := 4, typeCode := ⟨.integer, 4⟩, rank := 2, attr := .allocatable }

/-- Three by five elements of the plane take sixty bytes, and the request is granted. An empty
    dimension leaves one byte to ask for. 2^62 elements are more than any block holds. -/
theorem plane_of_requested :
    plane.isAllocatable = true ∧ plane.isAllocated = false ∧ plane.rank.toNat = 2 ∧
    plane.requestedBytes [1, 0] [3, 4] = 60 ∧ plane.requestedBytes [1, 1] [0, 5] = 0 ∧
    maxBlockBytes < plane.requestedBytes [1, 1] [0x80000000, 0x80000000] ∧
    (∃ d M, plane.allocate (.ofRecordings .host false #[] 64) [1, 0] [3, 4] default =
      .ok (d, .ok ()) M ∧
      M.heapLog = [.allocated 0 60]) ∧
    (∃ bounded, plane.AsksFor (.ofRecordings .host false #[] 64) [1, 1] [0, 5] default bounded 1) ∧
    plane.allocate (.ofRecordings .host false #[] 64) [1, 1] [0x80000000, 0x80000000] default =
      .ok (plane, .error .outOfMemory) default := by
  have keeps := Environment.keepsRoom_ofRecordings .host false #[] 64
  have typed : plane.MatchesType := fun _ named => nomatch named
  have many : maxBlockBytes < plane.requestedBytes [1, 1] [0x80000000, 0x80000000] := by decide
  have requested (lower upper : List Subscript) := allocate_of_requested (d := plane)
    (.ofRecordings .host false #[] 64) default lower upper rfl rfl (by decide)
  obtain ⟨_, fits⟩ := requested [1, 0] [3, 4] rfl rfl
  obtain ⟨_, empty⟩ := requested [1, 1] [0, 5] rfl rfl
  obtain ⟨large, _⟩ := requested [1, 1] [0x80000000, 0x80000000] rfl rfl
  obtain ⟨bounded, asks⟩ := fits (by decide) (by decide) (by decide) (.inl (by decide))
  obtain ⟨M, ended, log⟩ := asks.succeeds rfl typed keeps
  exact ⟨rfl, rfl, rfl, by decide, by decide, many, ⟨_, M, ended, log⟩,
    empty (by decide) (by decide) (by decide) (.inr (by decide)), large (.inr many)⟩

/-- A dimension of 2^63 elements, which no subscript can count, takes an allocation down even where
    an empty dimension leaves nothing to store: the allocator, which would grant a byte, is not
    asked for any. -/
theorem plane_not_requested :
    plane.isAllocatable = true ∧ plane.isAllocated = false ∧ plane.rank.toNat = 2 ∧
    requestedCount [0, 1] [Int64.maxValue, 0] = 0 ∧
    plane.requestedBytes [0, 1] [Int64.maxValue, 0] = 0 ∧
    (Environment.ofRecordings .host false #[] 16).grants (default : Machine) 1 = true ∧
    plane.allocate (.ofRecordings .host false #[] 16) [0, 1] [Int64.maxValue, 0] default =
      .ok (plane, .error .outOfMemory) default :=
  ⟨rfl, rfl, rfl, by decide, by decide, rfl, rfl⟩

end Descriptor

end DerivedTypes
