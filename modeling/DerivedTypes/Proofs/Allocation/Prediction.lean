import DerivedTypes.Proofs.Allocation.Request

namespace DerivedTypes

/-!
# Predicted sizes

The size of the storage is found twice. Before an allocation it is predicted from the bounds that
are asked for; later on, and in the end when the block is given back, it is found from the
dimensions. The first computation is checked, the second one works on dimensions whose extents and
strides were cut off at the largest subscript, where necessary.

`Descriptor.prediction_exact` says that they agree. That is so because it was never necessary: what
is predicted is exact (`Descriptor.boundsBytes?_eq_some_iff`), and for storage that was allocated
the whole can be measured with subscripts (`Descriptor.laidOutFor_of_setBounds`).
-/

namespace Descriptor

variable {env : Environment} {d d' bounded : Descriptor} {lower upper : List Subscript}
  {bytes size : Nat} {M M' : Machine}

/-- The dimensions are those that the bounds ask for, and lie in so many bytes without gaps: each
    stride is the number of bytes of all elements along the dimensions before it, and the last
    stride times the last extent is the whole. -/
structure LaidOutFor (d : Descriptor) (lower upper : List Subscript) (bytes : Nat) : Prop where
  extents : d.extents = exactExtents lower upper
  stride : ∀ (j : Nat) dim, d.dimensions[j]? = some dim →
    dim.byteStride.toInt = (d.elementSize.toNat * ((exactExtents lower upper).take j).prod : Nat)
  last : ∃ last, d.dimensions.getLast? = some last ∧ last.byteStride.toInt *
    last.extent.toInt = bytes

/-- The size of a block is at least one byte and no more than a subscript can measure. -/
theorem of_blockSize?_eq_some (block : DerivedTypes.blockSize? bytes = some size) :
    size = max 1 bytes ∧ bytes ≤ Subscript.maximum := by
  unfold DerivedTypes.blockSize? at block
  dsimp only at block
  split at block
  · next fits =>
    have measured : (maxBlockBytes : Int) ≤ Subscript.maximum := by decide
    exact ⟨(Option.some.inj block).symm, by omega⟩
  · cases block

/-- An allocation that succeeds has found the bounds right and has gone on in a block for the bytes
    that are predicted. -/
theorem exists_of_allocate_eq_ok (ended : d.allocate env lower upper M = .ok (d', .ok ()) M') :
    ∃ bytes bounded, lower.length = d.rank.toNat ∧ upper.length = d.rank.toNat ∧
      d.boundsBytes? lower upper = some bytes ∧ bytes ≤ Subscript.maximum ∧
      d.setBounds lower upper = .ok bounded ∧
      bounded.blockSize? = some (max 1 bytes) ∧
      bounded.takeBlock env M.nextBlock (max 1 bytes) (M.withBlock env (max 1 bytes)) =
      .ok (d', .ok ()) M' := by
  obtain ⟨_, _, _, failed, _⟩ | ⟨size, bounded, asked, bounds, ⟨_, _, failed, _⟩ | ⟨_, taken⟩⟩ :=
    allocate_cases ended
  · cases failed
  · cases failed
  · obtain ⟨_, _, low, high, found⟩ := of_allocationSize_eq_ok asked
    obtain ⟨bytes, predicted, block⟩ := Option.bind_eq_some_iff.mp found
    obtain ⟨rfl, measured⟩ := of_blockSize?_eq_some block
    exact ⟨bytes, bounded, low, high, predicted, measured, bounds,
      blockSize?_of_allocationSize asked bounds, taken⟩

/-- Storage that a subscript can measure is laid out exactly, if no dimension is empty. -/
theorem laidOutFor_of_setBounds (bounds : d.setBounds lower upper = .ok bounded)
    (low : lower.length = d.rank.toNat) (high : upper.length = d.rank.toNat)
    (predicted : d.boundsBytes? lower upper = some bytes) (measured : bytes ≤ Subscript.maximum)
    (rank : 0 < d.rank.toNat) (nonempty : ∀ dim ∈ bounded.dimensions, 0 < dim.extent) :
    bounded.LaidOutFor lower upper bytes := by
  obtain ⟨countable, _, exact, _⟩ := boundsBytes?_eq_some_iff.mp predicted
  have extents := extents_of_setBounds bounds low high countable
  have whole : d.elementSize.toNat * bounded.exactCount = bytes := by
    rw [← exact, Nat.mul_comm, exactCount_eq_prod_extents, extents, requestedCount]
  obtain ⟨stride, last⟩ := byteStride_of_setBounds bounds low high nonempty (whole ▸ measured)
  rw [whole] at last
  have some : bounded.dimensions ≠ [] := by
    rw [← List.length_pos_iff, dimensions_of_setBounds bounds low high, Dimension.length_contiguous,
      requestedExtents, List.length_map, List.length_zip, low, high, Nat.min_self]
    exact rank
  obtain ⟨_, same⟩ := eq_of_setBounds bounds
  refine ⟨extents, fun j dim there => ?_, _, List.getLast?_eq_some_getLast some, last _ ?_⟩
  · rw [stride j dim there, ← extents, same]
  · exact List.getLast?_eq_some_getLast some

/-- The size that is predicted for bounds is that of as many elements as the bounds ask for. It is
    found again when the bounds are set, without cutting anything off. So after an allocation that
    succeeded the descriptor describes exactly the block that was asked for, and if no dimension is
    empty, then all strides are exact. -/
theorem prediction_exact (env : Environment) (d : Descriptor) (lower upper : List Subscript)
    (rank : d.rank.toNat ≤ maxRank) (low : lower.length = d.rank.toNat)
    (high : upper.length = d.rank.toNat) :
    (∀ bytes, d.boundsBytes? lower upper = some bytes →
      bytes = d.requestedBytes lower upper ∧
      ∃ bounded, d.setBounds lower upper = .ok bounded ∧ bounded.elementSize = d.elementSize ∧
        bounded.storageBytes? = some bytes ∧ bounded.elementCount? = some bounded.elementCount ∧
        bounded.elementCount * d.elementSize.toNat = bytes) ∧
    ∀ M d' M', d.allocate env lower upper M = .ok (d', .ok ()) M' →
      ∃ bytes size bounded, d.boundsBytes? lower upper = some bytes ∧ size = max 1 bytes ∧
        M'.heapLog = M.heapLog ++ [.allocated M.memory.heap.size size] ∧
        d.setBounds lower upper = .ok bounded ∧ d' = { bounded with base := some M.nextBlock } ∧
        d'.blockSize? = some size ∧
        (0 < d.rank.toNat → (∀ dim ∈ d'.dimensions, 0 < dim.extent) →
          d'.LaidOutFor lower upper bytes) := by
  constructor
  · intro bytes predicted
    obtain ⟨bounded, bounds⟩ := exists_setBounds rank lower upper
    have count := elementCount?_of_setBounds bounds low high predicted
    have elements : bounded.elementCount = requestedCount lower upper := by
      rw [elementCount, count, Option.getD_some]
    have exact := (boundsBytes?_eq_some_iff.mp predicted).2.2.1
    refine ⟨exact.symm, bounded, bounds, ?_, storageBytes?_of_setBounds bounds low high predicted,
      ?_, ?_⟩
    · obtain ⟨_, rfl⟩ := eq_of_setBounds bounds
      rfl
    · rw [count, elements]
    · rw [elements, exact]
  · intro M d' M' ended
    obtain ⟨bytes, bounded, _, _, predicted, measured, bounds, described, taken⟩ :=
      exists_of_allocate_eq_ok ended
    obtain ⟨rfl, _⟩ := eq_of_takeBlock_eq_ok taken
    refine ⟨bytes, _, bounded, predicted, rfl, ?_, bounds, rfl, described, ?_⟩
    · rw [heapLog_of_takeBlock taken, Machine.heapLog_withBlock]
    · intro ranked nonempty
      -- Where the storage is does not matter to its layout.
      have laid := laidOutFor_of_setBounds bounds low high predicted measured ranked nonempty
      exact ⟨laid.extents, laid.stride, laid.last⟩

/-- Sixty bytes are predicted for three by five elements of the plane. They are found again, and
    after the allocation the plane lies in them without gaps. -/
theorem plane_prediction_exact :
    plane.rank.toNat = 2 ∧ plane.boundsBytes? [1, 0] [3, 4] = some 60 ∧
    (∃ bounded, plane.setBounds [1, 0] [3, 4] = .ok bounded ∧ bounded.storageBytes? = some 60) ∧
    ∃ d M, plane.allocate (.ofRecordings .host false #[] 64) [1, 0] [3, 4] default =
      .ok (d, .ok ()) M ∧
      d.blockSize? = some 60 ∧ d.LaidOutFor [1, 0] [3, 4] 60 := by
  obtain ⟨predicted, allocated⟩ :=
    prediction_exact (.ofRecordings .host false #[] 64) plane [1, 0] [3, 4] (by decide) rfl rfl
  have sixty : plane.boundsBytes? [1, 0] [3, 4] = some 60 := by decide
  have ended : plane.allocate (.ofRecordings .host false #[] 64) [1, 0] [3, 4] default =
      .ok (_, .ok ()) _ := rfl
  obtain ⟨_, bounded, bounds, _, storage, _⟩ := predicted 60 sixty
  obtain ⟨bytes, size, _, found, rfl, _, _, _, described, laid⟩ := allocated _ _ _ ended
  obtain rfl : 60 = bytes := Option.some.inj (sixty.symm.trans found)
  exact ⟨rfl, sixty, ⟨bounded, bounds, storage⟩, _, _, ended, described,
    laid (by decide) (by decide)⟩

end Descriptor

end DerivedTypes
