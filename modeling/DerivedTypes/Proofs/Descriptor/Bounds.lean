import DerivedTypes.Machine.Teardown
import DerivedTypes.Proofs.Descriptor.ExactCount
import Mathlib.Algebra.BigOperators.Group.List.Basic

namespace DerivedTypes

/-!
# New bounds

`Descriptor.setBounds` touches the dimensions of a descriptor and nothing else (`eq_of_setBounds`).
With as many bounds as the rank counts, the dimensions are the ones that the bounds ask for
(`dimensions_of_setBounds`), and the storage is then as large as was predicted from the bounds
(`storageBytes?_of_setBounds`).

What bounds ask for is told by their exact extents, which are unbounded integers.

* `Dimension.upper_of_extentBetween?`: the upper bound that a dimension reads off its extent is the
  one that it was made with, unless that is the largest subscript;
* `Descriptor.boundsBytes?_eq_some_iff`: a size is predicted if a subscript can count each extent
  and words hold the count on the way; it is exact;
* `Dimension.byteStride_contiguous`: a stride is the number of bytes of all elements along the
  dimensions before it, or the largest subscript.
-/

/-! ### Exact extents -/

namespace Dimension

/-- Number of subscripts from `lower` to `upper` as an unbounded integer. -/
def exactExtent (lower upper : Subscript) : Nat :=
  (upper.toInt - lower.toInt + 1).toNat

variable {lower upper extent : Subscript}

/-- An extent is found if it is exact. -/
theorem extentBetween?_eq_some_iff :
    extentBetween? lower upper = some extent ↔ extent.toInt = exactExtent lower upper := by
  unfold extentBetween? exactExtent
  by_cases empty : upper < lower
  · have none : (upper.toInt - lower.toInt + 1).toNat = 0 := by
      have := Int64.lt_iff_toInt_lt.mp empty
      omega
    rw [if_pos empty, none, Option.some_inj, ← Int64.toInt_inj]
    exact eq_comm
  · have some : ((upper.toInt - lower.toInt + 1).toNat : Int) = upper.toInt - lower.toInt + 1 := by
      have := mt Int64.lt_iff_toInt_lt.mpr empty
      omega
    rw [if_neg empty, some, Subscript.fit?_eq_some_iff]

/-- No extent is found if no subscript can count so many. -/
theorem extentBetween?_eq_none_iff :
    extentBetween? lower upper = none ↔ Subscript.maximum < exactExtent lower upper := by
  constructor
  · intro none
    by_contra countable
    have low : Subscript.minimum ≤ 0 := by decide
    have exact :=
      Subscript.toInt_ofInt (i := exactExtent lower upper) (by omega) (Int.not_lt.mp countable)
    rw [extentBetween?_eq_some_iff.mpr exact] at none
    cases none
  · intro uncountable
    by_contra found
    obtain ⟨extent, between⟩ := Option.ne_none_iff_exists'.mp found
    have le := extent.toInt_le
    rw [extentBetween?_eq_some_iff.mp between] at le
    simp only [Subscript.maximum] at uncountable
    omega

/-- One step of counting elements along bounds. -/
def multiply? (count : Nat) (bounds : Subscript × Subscript) : Option Nat := do
  Word.mul? count (← extentBetween? bounds.1 bounds.2).toInt.toNat

/-- Counting goes on with the exact extent. -/
theorem multiply?_of_countable (count : Nat) {bounds : Subscript × Subscript}
    (countable : exactExtent bounds.1 bounds.2 ≤ Subscript.maximum) :
    multiply? count bounds = Word.mul? count (exactExtent bounds.1 bounds.2) := by
  cases between : extentBetween? bounds.1 bounds.2 with
  | none =>
    have := extentBetween?_eq_none_iff.mp between
    omega
  | some extent =>
    rw [multiply?, between, ← Int.toNat_natCast (exactExtent bounds.1 bounds.2),
      ← extentBetween?_eq_some_iff.mp between]
    rfl

/-- Counting fails at an extent that no subscript can count. -/
theorem multiply?_of_uncountable (count : Nat) {bounds : Subscript × Subscript}
    (uncountable : Subscript.maximum < exactExtent bounds.1 bounds.2) :
    multiply? count bounds = none := by
  rw [multiply?, extentBetween?_eq_none_iff.mpr uncountable]
  rfl

end Dimension

/-! ### Upper bounds -/

namespace Dimension

variable {lower upper extent : Subscript}

/-- The extent of bounds that are not empty takes the lower bound to one past the upper bound. -/
theorem lower_add_extent (le : lower ≤ upper) (between : extentBetween? lower upper = some extent) :
    lower.toInt + extent.toInt = upper.toInt + 1 := by
  have := extentBetween?_eq_some_iff.mp between
  have := Int64.le_iff_toInt_le.mp le
  simp only [exactExtent] at *
  omega

/-- The upper bound that a dimension says it has, as an integer. -/
theorem toInt_upper (dim : Dimension) :
    dim.upper.toInt =
      max Subscript.minimum
        (min Subscript.maximum
          (max Subscript.minimum (min Subscript.maximum
            (dim.lower.toInt + dim.extent.toInt)) - 1)) := by
  rw [Dimension.upper, Subscript.toInt_saturate, Subscript.toInt_saturate]

/-- A dimension that is made from bounds with an extent that subscripts can count says that it ends
    where the bounds end, except at the largest subscript: there the sum on the way does not fit,
    and the last subscript is lost. An empty dimension ends right before its lower bound. -/
theorem upper_of_extentBetween? (between : extentBetween? lower upper = some extent)
    (byteStride : Subscript) :
    (lower ≤ upper →
      ((⟨lower, extent, byteStride⟩ : Dimension).upper = upper ↔ upper ≠ Int64.maxValue) ∧
      (upper = Int64.maxValue → (⟨lower, extent, byteStride⟩ : Dimension).upper.toInt =
        upper.toInt - 1)) ∧
    (upper < lower → extent = 0 ∧ (⟨lower, extent, byteStride⟩ : Dimension).upper.toInt =
      lower.toInt - 1) := by
  have read := toInt_upper ⟨lower, extent, byteStride⟩
  have largest : upper = Int64.maxValue ↔ upper.toInt = Subscript.maximum := Int64.toInt_inj.symm
  have upperLe : upper.toInt ≤ Subscript.maximum := upper.toInt_le
  have lowerLe : lower.toInt ≤ Subscript.maximum := lower.toInt_le
  have leUpper : Subscript.minimum ≤ upper.toInt := upper.minValue_le_toInt
  have wide : Subscript.minimum < Subscript.maximum := by decide
  dsimp only at read
  constructor
  · intro le
    rw [lower_add_extent le between] at read
    have := Int64.le_iff_toInt_le.mp le
    rw [ne_eq, ← Int64.toInt_inj, largest, read]
    omega
  · intro lt
    obtain rfl : extent = 0 := by
      rw [extentBetween?, if_pos lt] at between
      exact (Option.some.inj between).symm
    have := Int64.lt_iff_toInt_lt.mp lt
    rw [Int64.toInt_zero, Int.add_zero] at read
    exact ⟨rfl, by omega⟩

/-- The bounds 1 and 4 come back, and empty bounds end before they begin. -/
theorem upper_one_to_four :
    (⟨1, 4, 8⟩ : Dimension).upper = 4 ∧ (⟨5, 0, 8⟩ : Dimension).upper.toInt = 4 := by
  have four : extentBetween? 1 4 = some 4 := by decide
  have none : extentBetween? 5 (-3) = some 0 := by decide
  have whole := upper_of_extentBetween? four 8
  have empty := upper_of_extentBetween? none 8
  exact ⟨(whole.1 (by decide)).1.mpr (by decide), (empty.2 (by decide)).2⟩

/-- From 1 to the largest subscript there are as many subscripts as the largest one says, but a
    dimension with this extent says that it ends one earlier. -/
theorem upper_to_largest_ne :
    (1 : Subscript) ≤ Int64.maxValue ∧ extentBetween? 1 Int64.maxValue = some Int64.maxValue ∧
    (⟨1, Int64.maxValue, 8⟩ : Dimension).upper = Int64.maxValue - 1 ∧
    (⟨1, Int64.maxValue, 8⟩ : Dimension).upper ≠ Int64.maxValue := by
  decide

end Dimension

/-! ### Strides -/

/-- A count is cut off at the largest subscript. -/
theorem Subscript.toInt_saturate_natCast_eq_min (n : Nat) : (saturate n).toInt = min maximum n := by
  have low : minimum ≤ 0 := by decide
  have high : 0 ≤ maximum := by decide
  rw [toInt_saturate]
  omega

namespace Dimension

/-- Dimensions that are laid out contiguously have the extents that are asked for. -/
theorem map_extent_contiguous (stride : Subscript) (bounds : List (Subscript × Subscript)) :
    (contiguous stride bounds).map (fun dim => dim.extent.toInt.toNat) =
    bounds.map (·.2.toInt.toNat) := by
  induction bounds generalizing stride with
  | nil => rfl
  | cons b rest ih => rw [contiguous, List.map_cons, List.map_cons, ih]

/-- The product with an extent is cut off like the exact product, even if the factor has been cut
    off before. -/
theorem toInt_saturate_mul {stride extent : Subscript} {n : Nat}
    (cut : stride.toInt = min Subscript.maximum n) (nonneg : 0 ≤ extent) :
    (Subscript.saturate (stride.toInt * extent.toInt)).toInt =
      min Subscript.maximum (n * extent.toInt.toNat : Nat) := by
  have nonneg : 0 ≤ extent.toInt := by simpa using Int64.le_iff_toInt_le.mp nonneg
  obtain ⟨e, exact⟩ := Int.eq_ofNat_of_zero_le nonneg
  have low : Subscript.minimum ≤ 0 := by decide
  have high : 0 ≤ Subscript.maximum := by decide
  rw [Subscript.toInt_saturate, cut, exact, Int.toNat_natCast, Int.natCast_mul]
  by_cases fits : (n : Int) ≤ Subscript.maximum
  · have : (0 : Int) ≤ n * e := Int.mul_nonneg (by omega) (by omega)
    rw [min_eq_right fits]
    omega
  · -- The factor is too large already. Zero makes both products zero, all else too large.
    have large : Subscript.maximum ≤ n := by omega
    rw [min_eq_left large]
    rcases Nat.eq_zero_or_pos e with rfl | pos
    · simp only [Int.natCast_zero, Int.mul_zero]
      omega
    · have one : (1 : Int) ≤ e := by omega
      have kept : Subscript.maximum * 1 ≤ Subscript.maximum * e :=
        Int.mul_le_mul_of_nonneg_left one high
      have kept' : (n : Int) * 1 ≤ n * e := Int.mul_le_mul_of_nonneg_left one (by omega)
      omega

/-- Dimensions that are laid out contiguously stride over all elements along the dimensions before
    them, as far as a subscript can count the bytes. This also holds where an extent is zero after
    products that were cut off. -/
theorem byteStride_contiguous {bounds : List (Subscript × Subscript)} {stride : Subscript} {n : Nat}
    (first : stride.toInt = min Subscript.maximum n) (nonneg : ∀ b ∈ bounds, 0 ≤ b.2) {j : Nat}
    {dim : Dimension} (there : (contiguous stride bounds)[j]? = some dim) :
    dim.byteStride.toInt = min Subscript.maximum
      (n * ((bounds.map (·.2.toInt.toNat)).take j).prod : Nat) := by
  induction bounds generalizing stride n j with
  | nil => cases there
  | cons b rest ih =>
    obtain ⟨own, others⟩ := List.forall_mem_cons.mp nonneg
    cases j with
    | zero =>
      obtain rfl := Option.some.inj there
      rw [List.take_zero, List.prod_nil, Nat.mul_one]
      exact first
    | succ j =>
      rw [List.map_cons, List.take_succ_cons, List.prod_cons, ← Nat.mul_assoc]
      exact ih (toInt_saturate_mul first own) others there

end Dimension

namespace Descriptor

variable {d d' : Descriptor} {lower upper : List Subscript}

/-- New dimensions are all that changes. -/
theorem eq_of_withDimensions {dims : List Dimension} (h : d.withDimensions dims = .ok d') :
    ∃ slots, d' = { d with dimensionSlots := slots } := by
  unfold withDimensions at h
  split at h
  · exact ⟨_, (Except.ok.inj h).symm⟩
  · cases h

/-- New bounds leave every field but the dimensions as it was. -/
theorem eq_of_setBounds (h : d.setBounds lower upper = .ok d') :
    ∃ slots, d' = { d with dimensionSlots := slots } :=
  eq_of_withDimensions h

/-- Dimensions change no slot after those that they take. -/
theorem dimensionSlots_of_withDimensions {dims : List Dimension}
    (h : d.withDimensions dims = .ok d') {i : Nat} (lt : i < 15) (le : dims.length ≤ i) :
    d'.dimensionSlots[i] = d.dimensionSlots[i] := by
  unfold withDimensions at h
  split at h
  · obtain rfl := Except.ok.inj h
    rw [Vector.getElem_ofFn, List.getElem?_eq_none le, Option.getD_none]
    rfl
  · cases h

/-- New bounds change no slot that the rank does not count. -/
theorem dimensionSlots_of_setBounds (h : d.setBounds lower upper = .ok d') {i : Nat} (lt : i < 15)
    (le : d.rank.toNat ≤ i) : d'.dimensionSlots[i] = d.dimensionSlots[i] := by
  unfold setBounds at h
  refine dimensionSlots_of_withDimensions h lt ?_
  rw [Dimension.length_contiguous, List.length_map, List.length_take]
  omega

/-- As many dimensions as the rank counts take the place of all that counted before. -/
theorem dimensions_of_withDimensions {dims : List Dimension} (h : d.withDimensions dims = .ok d')
    (length : dims.length = d.rank.toNat) : d'.dimensions = dims := by
  unfold withDimensions at h
  split at h
  · next fits =>
    obtain rfl := Except.ok.inj h
    have few : dims.length ≤ 15 := fits
    apply List.ext_getElem?
    intro i
    rw [dimensions, Array.getElem?_toList, Array.take, Array.getElem?_extract, Nat.zero_add]
    by_cases lt : i < dims.length
    · rw [if_pos (by simp; omega), Vector.getElem?_toArray, Vector.getElem?_ofFn,
        dif_pos (by omega), List.getElem?_eq_getElem lt]
      rfl
    · rw [if_neg (by simp; omega), List.getElem?_eq_none (by omega)]
  · cases h

/-- The lower bound and the extent of each dimension that bounds ask for. -/
def requestedExtents (lower upper : List Subscript) : List (Subscript × Subscript) :=
  (lower.zip upper).map fun (lb, ub) => (lb, (Dimension.extentBetween? lb ub).getD Int64.maxValue)

/-- Bounds for every dimension that the rank counts are laid out contiguously. -/
theorem dimensions_of_setBounds (h : d.setBounds lower upper = .ok d')
    (low : lower.length = d.rank.toNat) (high : upper.length = d.rank.toNat) :
    d'.dimensions =
      Dimension.contiguous (.saturate d.elementSize.toNat) (requestedExtents lower upper) := by
  have all : (lower.zip upper).take d.rank.toNat = lower.zip upper :=
    List.take_of_length_le (Nat.le_of_eq (by rw [List.length_zip, low, high, Nat.min_self]))
  unfold setBounds at h
  rw [all] at h
  refine dimensions_of_withDimensions h ?_
  rw [Dimension.length_contiguous, requestedExtents, List.length_map, List.length_zip, low, high,
    Nat.min_self]

/-- No more bounds than a descriptor has room for can always be set. -/
theorem exists_setBounds (rank : d.rank.toNat ≤ maxRank) (lower upper : List Subscript) :
    ∃ d', d.setBounds lower upper = .ok d' := by
  unfold setBounds withDimensions
  rw [if_pos]
  · exact ⟨_, rfl⟩
  · simp only [Dimension.length_contiguous, List.length_map, List.length_take]
    omega

/-! ### Predicted sizes -/

/-- The extents that bounds ask for, as unbounded integers. -/
def exactExtents (lower upper : List Subscript) : List Nat :=
  (lower.zip upper).map fun b => Dimension.exactExtent b.1 b.2

/-- Number of elements that bounds ask for, as an unbounded integer. -/
def requestedCount (lower upper : List Subscript) : Nat :=
  (exactExtents lower upper).prod

/-- Counting elements along bounds is to multiply exact extents, if subscripts can count each of
    them. -/
theorem foldlM_multiply? {bounds : List (Subscript × Subscript)}
    (countable : ∀ b ∈ bounds, Dimension.exactExtent b.1 b.2 ≤ Subscript.maximum) (count : Nat) :
    bounds.foldlM Dimension.multiply? count =
      (bounds.map fun b => Dimension.exactExtent b.1 b.2).foldlM Word.mul? count := by
  induction bounds generalizing count with
  | nil => rfl
  | cons b rest ih =>
    rw [List.foldlM_cons, List.map_cons, List.foldlM_cons,
      Dimension.multiply?_of_countable count (countable b List.mem_cons_self)]
    congr 1
    funext product
    exact ih (fun b mem => countable b (List.mem_cons_of_mem _ mem)) product

/-- Counting along bounds fails at an extent that no subscript can count. -/
theorem foldlM_multiply?_eq_none {bounds : List (Subscript × Subscript)}
    (uncountable : ∃ b ∈ bounds, Subscript.maximum < Dimension.exactExtent b.1 b.2) (count : Nat) :
    bounds.foldlM Dimension.multiply? count = none := by
  obtain ⟨b, mem, large⟩ := uncountable
  induction bounds generalizing count with
  | nil => cases mem
  | cons c rest ih =>
    rw [List.foldlM_cons, Option.bind_eq_bind, Option.bind_eq_none_iff]
    intro product first
    rcases List.mem_cons.mp mem with rfl | mem
    · rw [Dimension.multiply?_of_uncountable count large] at first
      cases first
    · exact ih product mem

/-- A size is predicted for bounds if subscripts can count all extents, and words can count the
    elements on the way and the bytes in the end. It is exact. -/
theorem boundsBytes?_eq_some_iff {bytes : Nat} :
    d.boundsBytes? lower upper = some bytes ↔
      (∀ n ∈ exactExtents lower upper, n ≤ Subscript.maximum) ∧
      Word.leadingProduct (exactExtents lower upper) < Word.limit ∧
      requestedCount lower upper * d.elementSize.toNat = bytes ∧ bytes < Word.limit := by
  show ((lower.zip upper).foldlM Dimension.multiply? 1 >>= fun count =>
    Word.mul? count d.elementSize.toNat) = _ ↔ _
  by_cases countable : ∀ n ∈ exactExtents lower upper, n ≤ Subscript.maximum
  · have all : ∀ b ∈ lower.zip upper, Dimension.exactExtent b.1 b.2 ≤ Subscript.maximum :=
      fun b mem => countable _ (List.mem_map_of_mem mem)
    rw [foldlM_multiply? all, ← exactExtents, Word.foldlM_mul? (by decide) (by decide),
      Nat.one_mul, Nat.one_mul]
    by_cases fits : Word.leadingProduct (exactExtents lower upper) < Word.limit
    · rw [if_pos fits]
      show Word.fit? _ = _ ↔ _
      rw [Word.fit?_eq_some_iff, requestedCount]
      constructor
      · rintro ⟨rfl, lt⟩
        exact ⟨countable, fits, rfl, lt⟩
      · rintro ⟨_, _, rfl, lt⟩
        exact ⟨rfl, lt⟩
    · rw [if_neg fits]
      simp [fits]
  · have uncountable : ∃ b ∈ lower.zip upper, Subscript.maximum <
      Dimension.exactExtent b.1 b.2 := by
      obtain ⟨n, mem, large⟩ := not_forall₂.mp countable
      obtain ⟨b, there, rfl⟩ := List.mem_map.mp mem
      exact ⟨b, there, Int.not_le.mp large⟩
    rw [foldlM_multiply?_eq_none uncountable]
    simp [countable]

/-- The dimensions that bounds ask for have the exact extents, if subscripts can count them. -/
theorem extents_of_setBounds (h : d.setBounds lower upper = .ok d')
    (low : lower.length = d.rank.toNat) (high : upper.length = d.rank.toNat)
    (countable : ∀ n ∈ exactExtents lower upper, n ≤ Subscript.maximum) :
    d'.extents = exactExtents lower upper := by
  rw [extents, dimensions_of_setBounds h low high, Dimension.map_extent_contiguous,
    requestedExtents, List.map_map, exactExtents]
  refine List.map_congr_left fun b mem => ?_
  show ((Dimension.extentBetween? b.1 b.2).getD Int64.maxValue).toInt.toNat =
    Dimension.exactExtent b.1 b.2
  have fits : Dimension.exactExtent b.1 b.2 ≤ Subscript.maximum :=
    countable _ (List.mem_map_of_mem mem)
  cases between : Dimension.extentBetween? b.1 b.2 with
  | none =>
    have := Dimension.extentBetween?_eq_none_iff.mp between
    omega
  | some extent =>
    rw [Option.getD_some, Dimension.extentBetween?_eq_some_iff.mp between, Int.toNat_natCast]

/-- With new bounds there are as many elements as the bounds ask for, if their size is predicted. -/
theorem elementCount?_of_setBounds (h : d.setBounds lower upper = .ok d')
    (low : lower.length = d.rank.toNat) (high : upper.length = d.rank.toNat) {bytes : Nat}
    (predicted : d.boundsBytes? lower upper = some bytes) :
    d'.elementCount? = some (requestedCount lower upper) := by
  obtain ⟨countable, fits, _⟩ := boundsBytes?_eq_some_iff.mp predicted
  have extents := extents_of_setBounds h low high countable
  rw [elementCount?_eq, leadingCount, exactCount_eq_prod_extents, extents,
    if_pos fits, requestedCount]

/-- Storage with new bounds is as large as the bounds predict. -/
theorem storageBytes?_of_setBounds (h : d.setBounds lower upper = .ok d')
    (low : lower.length = d.rank.toNat) (high : upper.length = d.rank.toNat) {bytes : Nat}
    (predicted : d.boundsBytes? lower upper = some bytes) : d'.storageBytes? = some bytes := by
  have elements := elementCount?_of_setBounds h low high predicted
  obtain ⟨_, _, exact, lt⟩ := boundsBytes?_eq_some_iff.mp predicted
  obtain ⟨slots, rfl⟩ := eq_of_setBounds h
  rw [storageBytes?, elements]
  exact Word.fit?_eq_some_iff.mpr ⟨exact, exact ▸ lt⟩

/-- With new bounds, and no empty dimension among them, each stride is the number of bytes of all
    elements along the dimensions before it, and the last stride times the last extent is the number
    of all bytes, if a subscript can count these. -/
theorem byteStride_of_setBounds (h : d.setBounds lower upper = .ok d')
    (low : lower.length = d.rank.toNat) (high : upper.length = d.rank.toNat)
    (nonempty : ∀ dim ∈ d'.dimensions, 0 < dim.extent)
    (fits : (d.elementSize.toNat * d'.exactCount : Nat) ≤ Subscript.maximum) :
    (∀ (j : Nat) dim, d'.dimensions[j]? = some dim →
      dim.byteStride.toInt = (d.elementSize.toNat * (d'.extents.take j).prod : Nat)) ∧
    ∀ last, d'.dimensions.getLast? = some last →
      last.byteStride.toInt * last.extent.toInt = (d.elementSize.toNat * d'.exactCount : Nat) := by
  have dims := dimensions_of_setBounds h low high
  have stored : d'.extents = (requestedExtents lower upper).map (·.2.toInt.toNat) := by
    rw [extents, dims, Dimension.map_extent_contiguous]
  have positive : ∀ dim ∈ d'.dimensions, 0 < dim.extent.toInt.toNat := by
    intro dim mem
    have := Int64.lt_iff_toInt_lt.mp (nonempty dim mem)
    simp only [Int64.toInt_zero] at this
    omega
  have extentsPos : ∀ n ∈ d'.extents, 0 < n := List.forall_mem_map.mpr positive
  have pos : 0 < d'.exactCount := CanonicallyOrderedAdd.list_prod_pos.mpr extentsPos
  have nonneg : ∀ b ∈ requestedExtents lower upper, 0 ≤ b.2 := by
    intro b mem
    have := extentsPos b.2.toInt.toNat (stored ▸ List.mem_map_of_mem mem)
    exact Int64.le_iff_toInt_le.mpr (by rw [Int64.toInt_zero]; omega)
  have strides : ∀ (j : Nat) dim, d'.dimensions[j]? = some dim →
      dim.byteStride.toInt = (d.elementSize.toNat * (d'.extents.take j).prod : Nat) := by
    intro j dim there
    rw [dims] at there
    rw [Dimension.byteStride_contiguous (Subscript.toInt_saturate_natCast_eq_min _)
      nonneg there, ← stored]
    -- The elements along the leading dimensions are no larger than all of them.
    have split : (d'.extents.take j).prod * (d'.extents.drop j).prod = d'.exactCount := by
      rw [← List.prod_append, List.take_append_drop, exactCount_eq_prod_extents]
    have others : 0 < (d'.extents.drop j).prod := Nat.pos_of_mul_pos_left (split ▸ pos)
    have le : (d'.extents.take j).prod ≤ d'.exactCount := split ▸ Nat.le_mul_of_pos_right _ others
    exact min_eq_right (Int.le_trans (Int.ofNat_le.mpr (Nat.mul_le_mul_left _ le)) fits)
  refine ⟨strides, fun last there => ?_⟩
  obtain ⟨before, split⟩ := List.getLast?_eq_some_iff.mp there
  have stride := strides before.length last (by simp [split])
  have count : ((last.extent.toInt.toNat : Nat) : Int) = last.extent.toInt := by
    have := positive last (by simp [split])
    omega
  have all : d'.extents = before.map (fun dim => dim.extent.toInt.toNat) ++
      [last.extent.toInt.toNat] := by
    rw [extents, split, List.map_append, List.map_singleton]
  rw [all, List.take_left' (by simp)] at stride
  rw [stride, ← count, ← Int.natCast_mul, Nat.mul_assoc, exactCount_eq_prod_extents, all,
    List.prod_append, List.prod_singleton]

end Descriptor

end DerivedTypes
