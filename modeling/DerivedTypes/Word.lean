namespace DerivedTypes

/-!
# Machine words

Sizes and counts are unsigned 64-bit words, subscripts are signed ones. Arithmetic is done on exact
integers and brought back to a word in one of two ways.

* `Word.fit?`, `Word.add?`, `Word.mul?`: the exact result, or nothing when no word holds it;
* `Subscript.fit?`: the same for signed results;
* `Subscript.saturate`: the nearest subscript.
-/

namespace Word

/-- One more than the largest unsigned word. -/
def limit : Nat := UInt64.size

/-- The largest unsigned word. -/
def maximum : Nat := limit - 1

/-- A count, as long as a word can hold it. -/
def fit? (n : Nat) : Option Nat :=
  if n < limit then some n else none

/-- The sum, as long as a word can hold it. -/
def add? (a b : Nat) : Option Nat :=
  fit? (a + b)

/-- The product, as long as a word can hold it. -/
def mul? (a b : Nat) : Option Nat :=
  fit? (a * b)

/-- A number fits if it is below the limit, and then it stays what it is. -/
theorem fit?_eq_some_iff {n m : Nat} : fit? n = some m ↔ n = m ∧ n < limit := by
  grind [fit?]

end Word

/-- A subscript, an extent, a byte stride or the value of a type parameter. -/
abbrev Subscript := Int64

namespace Subscript

/-- The smallest subscript. -/
def minimum : Int := Int64.minValue.toInt

/-- The largest subscript. -/
def maximum : Int := Int64.maxValue.toInt

/-- A signed result, as long as a subscript can hold it. -/
def fit? (i : Int) : Option Subscript :=
  if minimum ≤ i ∧ i ≤ maximum then some (Int64.ofInt i) else none

/-- The subscript nearest to `i`. -/
def saturate (i : Int) : Subscript :=
  Int64.ofInt (max minimum (min maximum i))

/-- Subscripts hold every number in their range exactly. -/
theorem toInt_ofInt {i : Int} (lo : minimum ≤ i) (hi : i ≤ maximum) :
    (Int64.ofInt i).toInt = i := by
  simp only [minimum, maximum, Int64.toInt_minValue, Int64.toInt_maxValue] at lo hi
  apply Int64.toInt_ofInt_of_le <;> omega

/-- Saturation is exact inside the range. -/
theorem toInt_saturate (i : Int) : (saturate i).toInt = max minimum (min maximum i) := by
  have le : minimum ≤ maximum := by decide
  apply toInt_ofInt <;> omega

/-- A count that a subscript can hold is not cut off. -/
theorem toInt_saturate_natCast {n : Nat} (le : n ≤ maximum) : (saturate n).toInt = n := by
  have low : minimum ≤ 0 := by decide
  rw [toInt_saturate]
  omega

/-- A subscript that was found for a number has its value. -/
theorem toInt_of_fit? {i : Int} {s : Subscript} (h : fit? i = some s) : s.toInt = i := by
  unfold fit? at h
  split at h
  · next range =>
    obtain rfl := Option.some.inj h
    exact toInt_ofInt range.1 range.2
  · cases h

/-- A number fits exactly the subscript with its value. -/
theorem fit?_eq_some_iff {i : Int} {s : Subscript} : fit? i = some s ↔ s.toInt = i := by
  refine ⟨toInt_of_fit?, ?_⟩
  rintro rfl
  rw [fit?, if_pos ⟨s.minValue_le_toInt, s.toInt_le⟩, Int64.ofInt_toInt]

end Subscript

end DerivedTypes
