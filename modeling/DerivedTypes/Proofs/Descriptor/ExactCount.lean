import DerivedTypes.Descriptor.Shape
import Mathlib.Algebra.BigOperators.Ring.List
import Mathlib.Algebra.Order.BigOperators.Ring.List
import Mathlib.Algebra.Order.Ring.Nat
import Mathlib.Data.List.TakeWhile

namespace DerivedTypes

/-!
# Exact element counts

A descriptor counts its elements in words, from the first dimension to the last.
`Descriptor.exactCount` is the number that it means, as an unbounded integer. On the way to it the
words hold the products of the leading extents, and these grow until the first empty dimension,
which makes them zero for good. So all that can go wrong is told by the product of the extents
before the first empty one.

* `Word.foldlM_mul?`: multiplication in words comes to an end exactly if the factors before the
  first zero have a product that a word holds, and then it is exact;
* `Descriptor.exactCount_eq_of_elementCount?`: a count that a word holds is exact;
* `Descriptor.counts_exactly_iff`: when a descriptor counts as it should. It does not if an empty
  dimension comes too late (`Descriptor.late_not_counted_exactly`).
-/

/-! ### Products of words -/

namespace Word

/-- The product of the factors before the first zero. -/
def leadingProduct (factors : List Nat) : Nat :=
  (factors.takeWhile (0 < ·)).prod

variable {factors : List Nat} {count n : Nat}

/-- A factor before the first zero counts. -/
theorem leadingProduct_cons_of_pos (pos : 0 < n) :
    leadingProduct (n :: factors) = n * leadingProduct factors := by
  rw [leadingProduct, List.takeWhile_cons_of_pos (by simpa using pos),
    List.prod_cons, leadingProduct]

/-- A zero ends the product. -/
theorem leadingProduct_zero_cons (factors : List Nat) : leadingProduct (0 :: factors) = 1 := rfl

/-- The factors before the first zero have a positive product. -/
theorem leadingProduct_pos (factors : List Nat) : 0 < leadingProduct factors :=
  CanonicallyOrderedAdd.list_prod_pos.mpr fun n mem => by simpa using List.mem_takeWhile_imp mem

/-- Without a zero, all factors are before the first one. -/
theorem leadingProduct_of_pos (pos : 0 < factors.prod) : leadingProduct factors = factors.prod := by
  have all := CanonicallyOrderedAdd.list_prod_pos.mp pos
  rw [leadingProduct, List.takeWhile_eq_self_iff.mpr (by simpa using all)]

/-- A word that holds zero holds the product with any other factors. -/
theorem foldlM_mul?_zero (factors : List Nat) : factors.foldlM mul? 0 = some 0 := by
  induction factors with
  | nil => rfl
  | cons n rest ih =>
    rw [List.foldlM_cons, mul?, Nat.zero_mul]
    exact ih

/-- Factors can be multiplied in words, from left to right, exactly if a word holds the product of
    all those before the first zero. The result is exact. -/
theorem foldlM_mul? (pos : 0 < count) (lt : count < limit) :
    factors.foldlM mul? count =
      if count * leadingProduct factors < limit then some (count * factors.prod) else none := by
  induction factors generalizing count with
  | nil =>
    rw [leadingProduct, List.takeWhile_nil, List.prod_nil, Nat.mul_one, if_pos lt]
    rfl
  | cons n rest ih =>
    rw [List.foldlM_cons, List.prod_cons]
    rcases Nat.eq_zero_or_pos n with rfl | some
    · -- After a zero nothing can go wrong.
      rw [leadingProduct_zero_cons, Nat.mul_one, if_pos lt, Nat.zero_mul, mul?, Nat.mul_zero]
      exact foldlM_mul?_zero rest
    · rw [leadingProduct_cons_of_pos some, ← Nat.mul_assoc, ← Nat.mul_assoc, mul?, fit?]
      by_cases fits : count * n < limit
      · rw [if_pos fits]
        exact ih (Nat.mul_pos pos some) fits
      · -- The other factors before the first zero do not make the product smaller.
        have le := Nat.le_mul_of_pos_right (count * n) (leadingProduct_pos rest)
        rw [if_neg fits, if_neg (by omega)]
        rfl

end Word

/-! ### Counts of elements -/

namespace Descriptor

/-- The extents as unbounded integers, a negative one counting as zero. -/
def extents (d : Descriptor) : List Nat :=
  d.dimensions.map fun dim => dim.extent.toInt.toNat

/-- Number of elements as an unbounded integer: the product of all extents, a negative one counting
    as zero. -/
def exactCount (d : Descriptor) : Nat :=
  (d.dimensions.map fun dim => dim.extent.toInt.toNat).prod

/-- Number of elements along the dimensions before the first empty one. -/
def leadingCount (d : Descriptor) : Nat :=
  Word.leadingProduct d.extents

variable {d : Descriptor}

/-- The exact number of elements is the product of the extents. -/
theorem exactCount_eq_prod_extents (d : Descriptor) : d.exactCount = d.extents.prod := rfl

/-- The count is exact, as far as there is one. Whether there is one is decided before the first
    empty dimension. -/
theorem elementCount?_eq (d : Descriptor) :
    d.elementCount? = if d.leadingCount < Word.limit then some d.exactCount else none := by
  have product : d.extents.foldlM Word.mul? 1 = _ := Word.foldlM_mul? (by decide) (by decide)
  rwa [extents, List.foldlM_map, Nat.one_mul, Nat.one_mul] at product

/-- If no dimension is empty, all dimensions count. -/
theorem leadingCount_of_pos (pos : 0 < d.exactCount) : d.leadingCount = d.exactCount :=
  Word.leadingProduct_of_pos pos

/-- A count that a word holds is exact. -/
theorem exactCount_eq_of_elementCount? {count : Nat} (h : d.elementCount? = some count) :
    d.exactCount = count := by
  rw [elementCount?_eq] at h
  split at h
  · exact Option.some.inj h
  · cases h

/-- A positive count that a word can hold is found. -/
theorem elementCount?_eq_of_pos (pos : 0 < d.exactCount) (lt : d.exactCount < Word.limit) :
    d.elementCount? = some d.exactCount := by
  rw [elementCount?_eq, leadingCount_of_pos pos, if_pos lt]

/-- A size that a word holds is that of all elements. -/
theorem elementCount_eq_of_storageBytes? {bytes : Nat} (h : d.storageBytes? = some bytes) :
    d.elementCount = d.exactCount ∧ bytes = d.exactCount * d.elementSize.toNat := by
  obtain ⟨count, counted, product⟩ := Option.bind_eq_some_iff.mp h
  rw [exactCount_eq_of_elementCount? counted, elementCount, counted]
  exact ⟨rfl, (Word.fit?_eq_some_iff.mp product).1.symm⟩

/-- There are no elements exactly if some dimension is empty. -/
theorem exactCount_eq_zero_iff : d.exactCount = 0 ↔ ∃ dim ∈ d.dimensions, dim.extent ≤ 0 := by
  rw [exactCount, List.prod_eq_zero_iff, List.mem_map]
  refine exists_congr fun dim => and_congr_right fun _ => ?_
  rw [Int64.le_iff_toInt_le, Int.toNat_eq_zero]
  rfl

/-- A descriptor counts its elements exactly if the count along the dimensions before the first
    empty one fits in a word, and not at all otherwise. So it finds the exact count if a word holds
    it, and nothing if no word does, provided that no dimension is empty or that the count before
    the first empty one fits. Under that condition, and no other, a descriptor with an empty
    dimension has no elements. -/
theorem counts_exactly_iff (d : Descriptor) :
    d.elementCount? = (if d.leadingCount < Word.limit then some d.exactCount else none) ∧
    (d.elementCount? = (if d.exactCount < Word.limit then some d.exactCount else none) ↔
      0 < d.exactCount ∨ d.leadingCount < Word.limit) ∧
    (d.elementCount = 0 ↔ (∃ dim ∈ d.dimensions, dim.extent ≤ 0) ∧
      d.leadingCount < Word.limit) := by
  refine ⟨d.elementCount?_eq, ?_, ?_⟩
  · rcases Nat.eq_zero_or_pos d.exactCount with none | some
    · rw [elementCount?_eq, none, if_pos (show 0 < Word.limit by decide)]
      simp
    · rw [elementCount?_eq, leadingCount_of_pos some]
      simp [some]
  · rw [← exactCount_eq_zero_iff, elementCount, elementCount?_eq]
    by_cases fits : d.leadingCount < Word.limit
    · simp [fits]
    · have full : Word.maximum ≠ 0 := by decide
      simp [fits, full]

/-- Three dimensions, the last of them empty. -/
def late : Descriptor :=
  { zeroed with
    elementSize := 4, typeCode := ⟨.integer, 4⟩, rank := 3
    dimensionSlots := .ofFn fun i =>
      [⟨1, 0x200000000, 4⟩, ⟨1, 0x200000000, 0x800000000⟩, ⟨1, 0, 0x7fffffffffffffff⟩][i.val]?.getD
        .empty }

/-- After two dimensions of 2^33 the count no longer fits, and the empty dimension that follows does
    not bring it back: instead of no elements the descriptor has as many as a word can count. -/
theorem late_not_counted_exactly :
    late.rank.toNat ≤ maxRank ∧ (∃ dim ∈ late.dimensions, dim.extent ≤ 0) ∧ late.exactCount = 0 ∧
    late.elementCount? ≠ (if late.exactCount < Word.limit then some late.exactCount else none) ∧
    late.elementCount = Word.maximum := by
  decide

end Descriptor

end DerivedTypes
