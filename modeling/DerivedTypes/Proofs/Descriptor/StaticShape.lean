import DerivedTypes.Proofs.Descriptor.Bounds

namespace DerivedTypes

/-!
# Static shapes

Components of fixed shape have static descriptors, and storage at run time is established. Both
describe elements of a derived type by a list of extents, but they come to the dimensions in
different ways: `Descriptor.static` takes the extents as they are, and `Descriptor.establishDerived`
takes them for upper bounds, so that a negative extent becomes zero. `Descriptor.contiguousDerived`
is what both of them make (`static_eq`, `establishDerived_eq`).

* `Descriptor.describesAlike_contiguousDerived`: the number of elements and of bytes do not depend
  on how negative extents are stored;
* `Descriptor.static_agrees_establishDerived`: the two agree about all that sizes depend on, and
  without negative extents in every field.
-/

namespace Dimension

/-- The extent of an array that begins at 1 and ends at `last`. -/
def extentUpTo (last : Subscript) : Subscript :=
  if last < 1 then 0 else last

/-- The extent of an array that begins at 1 can always be told. -/
theorem extentBetween?_one (last : Subscript) : extentBetween? 1 last = some (extentUpTo last) := by
  unfold extentBetween? extentUpTo
  split
  · rfl
  · rw [Subscript.fit?_eq_some_iff, show (1 : Subscript).toInt = 1 from rfl]
    omega

/-- A negative extent counts as zero, whether or not it is stored as zero. -/
theorem toNat_extentUpTo (last : Subscript) : (extentUpTo last).toInt.toNat = last.toInt.toNat := by
  unfold extentUpTo
  split
  · next empty =>
    have := Int64.lt_iff_toInt_lt.mp empty
    rw [show (1 : Subscript).toInt = 1 from rfl] at this
    rw [Int64.toInt_zero]
    omega
  · rfl

/-- An extent that is not negative is stored as it is. -/
theorem extentUpTo_of_nonneg {last : Subscript} (nonneg : 0 ≤ last) : extentUpTo last = last := by
  unfold extentUpTo
  split
  · next empty =>
    have := Int64.lt_iff_toInt_lt.mp empty
    have := Int64.le_iff_toInt_le.mp nonneg
    rw [← Int64.toInt_inj]
    simp only [Int64.toInt_zero, show (1 : Subscript).toInt = 1 from rfl] at *
    omega
  · rfl

end Dimension

namespace Descriptor

/-- The slots of a descriptor that has the given dimensions and no others. -/
def slotsWith (dims : List Dimension) : Vector Dimension 15 :=
  .ofFn fun i => (dims[i.val]?).getD .empty

/-- Dimensions that are put into empty slots leave the slots after them empty. -/
theorem withDimensions_of_empty {d : Descriptor} {dims : List Dimension}
    (few : dims.length ≤ maxRank) (empty : d.dimensionSlots = .replicate 15 .empty) :
    d.withDimensions dims = .ok { d with dimensionSlots := slotsWith dims } := by
  rw [withDimensions, if_pos few, slotsWith, empty]
  simp [Vector.get]

/-- As many dimensions as the rank counts are all that such slots hold. -/
theorem dimensions_of_slotsWith {d : Descriptor} {dims : List Dimension}
    (length : dims.length = d.rank.toNat) (few : dims.length ≤ maxRank)
    (slots : d.dimensionSlots = slotsWith dims) : d.dimensions = dims := by
  -- The slots are filled as an operation fills them that finds them empty.
  have laid : { d with dimensionSlots := .replicate 15 .empty }.withDimensions dims = .ok d := by
    rw [withDimensions_of_empty few rfl, ← slots]
    cases d
    rfl
  exact dimensions_of_withDimensions laid length

/-- Elements of a derived type without storage, laid out contiguously along dimensions that begin at
    1. -/
def contiguousDerived (ty : DerivedType) (stride : Subscript) (extents : List Subscript) :
    Descriptor :=
  { zeroed with
    elementSize := ty.size
    typeCode := .derived
    rank := .ofNat extents.length
    flags := 1
    addendumType := some ty
    dimensionSlots := slotsWith (Dimension.contiguous stride (extents.map (1, ·))) }

variable {ty : DerivedType} {extents : List Subscript} {stride stride' : Subscript}

/-- The rank is the number of extents. -/
theorem toNat_rank_contiguousDerived (few : extents.length ≤ maxRank) :
    (contiguousDerived ty stride extents).rank.toNat = extents.length := by
  show (UInt8.ofNat extents.length).toNat = extents.length
  rw [UInt8.toNat_ofNat']
  simp only [maxRank] at few
  omega

/-- A static descriptor names the type of its elements. -/
theorem derivedType?_contiguousDerived :
    (contiguousDerived ty stride extents).derivedType? = some ty := by
  have addendum : (contiguousDerived ty stride extents).hasAddendum = true := by
    show (1 : UInt8).toNat.testBit 0 = true
    decide
  rw [derivedType?, if_pos addendum]
  rfl

/-- Its dimensions are those that were laid out. -/
theorem dimensions_contiguousDerived (few : extents.length ≤ maxRank) :
    (contiguousDerived ty stride extents).dimensions =
    Dimension.contiguous stride (extents.map (1, ·)) := by
  have length : (Dimension.contiguous stride (extents.map ((1 : Subscript), ·))).length =
      extents.length := by
    rw [Dimension.length_contiguous, List.length_map]
  exact dimensions_of_slotsWith (length.trans (toNat_rank_contiguousDerived few).symm)
    (by rwa [length]) rfl

/-- Negative extents count as zero. -/
theorem extents_contiguousDerived (few : extents.length ≤ maxRank) :
    (contiguousDerived ty stride extents).extents = extents.map (·.toInt.toNat) := by
  rw [Descriptor.extents, dimensions_contiguousDerived few,
    Dimension.map_extent_contiguous, List.map_map]
  rfl

/-! ### Two ways to the same shape -/

/-- A static descriptor has the extents that it is given. -/
theorem static_eq (ty : DerivedType) (few : extents.length ≤ maxRank) :
    static ty extents = .ok (contiguousDerived ty ty.size.toInt64 extents) :=
  withDimensions_of_empty (by rwa [Dimension.length_contiguous, List.length_map]) rfl

/-- Bounds from 1 up to given extents. -/
theorem zip_ones (extents : List Subscript) :
    (extents.map fun _ => (1 : Subscript)).zip extents = extents.map (1, ·) := by
  induction extents with
  | nil => rfl
  | cons e rest ih => rw [List.map_cons, List.zip_cons_cons, List.map_cons, ih]

/-- An established descriptor has the extents that arrays from 1 up to them have, whatever was
    described before. -/
theorem establishDerived_eq (d : Descriptor) (ty : DerivedType) (few : extents.length ≤ maxRank) :
    d.establishDerived ty none extents .other =
      .ok (contiguousDerived ty (.saturate ty.size.toNat) (extents.map Dimension.extentUpTo)) := by
  have rank : (UInt8.ofNat extents.length).toNat = extents.length :=
    show (contiguousDerived ty 0 extents).rank.toNat = _ from toNat_rank_contiguousDerived few
  unfold establishDerived establish setBounds
  rw [if_pos few]
  dsimp only
  rw [rank, zip_ones, List.take_of_length_le (by simp), List.map_map,
    withDimensions_of_empty (by simpa using few) rfl]
  simp only [Function.comp_def, Dimension.extentBetween?_one, Option.getD_some, contiguousDerived,
    List.map_map, List.length_map]
  rfl

/-! ### What both describe -/

/-- Two descriptors describe the same number of elements of the same type, in as many dimensions and
    in as many bytes. -/
structure DescribesAlike (d d' : Descriptor) : Prop where
  count : d.elementCount = d'.elementCount
  exact : d.elementCount? = d'.elementCount?
  bytes : d.storageBytes? = d'.storageBytes?
  elementSize : d.elementSize = d'.elementSize
  rank : d.rank = d'.rank
  derivedType : d.derivedType? = d'.derivedType?

/-- Negative extents may be stored as zero, and strides do not matter. -/
theorem describesAlike_contiguousDerived (few : extents.length ≤ maxRank) (ty : DerivedType)
    (stride stride' : Subscript) :
    (contiguousDerived ty stride extents).DescribesAlike
      (contiguousDerived ty stride' (extents.map Dimension.extentUpTo)) := by
  have few' : (extents.map Dimension.extentUpTo).length ≤ maxRank := by rwa [List.length_map]
  have same : (contiguousDerived ty stride extents).extents =
      (contiguousDerived ty stride' (extents.map Dimension.extentUpTo)).extents := by
    rw [extents_contiguousDerived few, extents_contiguousDerived few', List.map_map]
    exact List.map_congr_left fun e _ => (Dimension.toNat_extentUpTo e).symm
  have exact : (contiguousDerived ty stride extents).elementCount? =
      (contiguousDerived ty stride' (extents.map Dimension.extentUpTo)).elementCount? := by
    rw [elementCount?_eq, elementCount?_eq, leadingCount, leadingCount, exactCount_eq_prod_extents,
      exactCount_eq_prod_extents, same]
  refine ⟨?_, exact, ?_, rfl, ?_, ?_⟩
  · rw [elementCount, elementCount, exact]
  · rw [storageBytes?, storageBytes?, exact]
    rfl
  · show UInt8.ofNat extents.length = UInt8.ofNat (extents.map Dimension.extentUpTo).length
    rw [List.length_map]
  · rw [derivedType?_contiguousDerived, derivedType?_contiguousDerived]

/-- Extents that are not negative are stored as they are. -/
theorem map_extentUpTo (nonneg : ∀ e ∈ extents, 0 ≤ e) :
    extents.map Dimension.extentUpTo = extents :=
  List.map_congr_left (fun e mem => Dimension.extentUpTo_of_nonneg (nonneg e mem))
    |>.trans (List.map_id _)

/-- A size that a subscript can hold is the same stride in both ways. -/
theorem toInt64_eq_saturate {size : UInt64} (holds : (size.toNat : Int) ≤ Subscript.maximum) :
    size.toInt64 = Subscript.saturate size.toNat := by
  have exact := Subscript.toInt_saturate_natCast holds
  have small : (size.toNat : Int) ≤ 0x7fffffffffffffff := holds
  rw [← Int64.toInt_inj, exact]
  show size.toBitVec.toInt = size.toNat
  rw [BitVec.toInt_eq_toNat_of_lt (by rw [UInt64.toNat_toBitVec]; omega), UInt64.toNat_toBitVec]

/-- The static descriptor of up to 15 extents and the descriptor that is established with them
    exist, and describe the same, even where extents are negative. If no extent is negative and a
    subscript can hold the size of an element, they are the same in every field, and each stride is
    the size of all elements along the dimensions before it, or the largest subscript if that is
    smaller. -/
theorem static_agrees_establishDerived (ty : DerivedType) (few : extents.length ≤ maxRank)
    (d : Descriptor) :
    ∃ s r : Descriptor, static ty extents = .ok s ∧
      d.establishDerived ty none extents .other = .ok r ∧
      s.DescribesAlike r ∧ s.elementSize = ty.size ∧ s.rank.toNat = extents.length ∧
      s.derivedType? = some ty ∧
      ((∀ e ∈ extents, 0 ≤ e) → ty.size.toNat ≤ Subscript.maximum →
        s = r ∧ s.dimensions.length = extents.length ∧
        ∀ (j : Nat) dim, s.dimensions[j]? = some dim →
          dim.byteStride.toInt =
            min Subscript.maximum (ty.size.toNat *
              ((extents.map (·.toInt.toNat)).take j).prod : Nat)) := by
  refine ⟨_, _, static_eq ty few, establishDerived_eq d ty few,
    describesAlike_contiguousDerived few ty _ _, rfl,
    toNat_rank_contiguousDerived few, derivedType?_contiguousDerived, fun nonneg holds => ?_⟩
  have stride := toInt64_eq_saturate holds
  rw [dimensions_contiguousDerived few]
  refine ⟨?_, ?_, fun j dim there => ?_⟩
  · rw [map_extentUpTo nonneg, stride]
  · rw [Dimension.length_contiguous, List.length_map]
  · have first : ty.size.toInt64.toInt = min Subscript.maximum ty.size.toNat := by
      rw [stride, Subscript.toInt_saturate_natCast_eq_min]
    have all : ∀ b ∈ extents.map ((1 : Subscript), ·), 0 ≤ b.2 := List.forall_mem_map.mpr nonneg
    have read := Dimension.byteStride_contiguous first all there
    rwa [List.map_map] at read

/-- An element of one word, without components. -/
def word : DerivedType :=
  { number := 0, name := "word", parameters := [], components := [], procedures := [],
    image := none, size := 8,
    isSequence := false, isBindC := false : DerivedType }.summarize

/-- The second stride is too large to count, and the third one is zero all the same, since the array
    is empty. -/
theorem static_past_overflow :
    ∃ s : Descriptor, static word [0x4000000000000000, 0, 3] = .ok s ∧
      zeroed.establishDerived word none [0x4000000000000000, 0, 3] .other = .ok s ∧
      s.dimensions.map (·.byteStride.toInt) = [8, Subscript.maximum, 0] := by
  have few : ([0x4000000000000000, 0, 3] : List Subscript).length ≤ maxRank := by decide
  have nonneg : ∀ e ∈ ([0x4000000000000000, 0, 3] : List Subscript), 0 ≤ e :=
    List.forall_mem_cons.mpr
      ⟨by decide, List.forall_mem_cons.mpr ⟨by decide, List.forall_mem_singleton.mpr (by decide)⟩⟩
  obtain ⟨s, r, fixed, established, -, -, -, -, same⟩ :=
    static_agrees_establishDerived word few zeroed
  obtain ⟨rfl, length, strides⟩ := same nonneg (by decide)
  refine ⟨s, fixed, established, ?_⟩
  obtain ⟨first, second, third, dims⟩ := List.length_eq_three.mp length
  rw [dims] at strides ⊢
  rw [List.map_cons, List.map_cons, List.map_singleton, strides 0 first rfl, strides 1 second rfl,
    strides 2 third rfl]
  decide

end Descriptor

end DerivedTypes
