import DerivedTypes.Inspect

namespace DerivedTypes

/-!
# Addresses

Memory consists of regions: buffers that exist from the start, and heap blocks numbered in order of
allocation. An address is a region and an offset in it. What lies outside all regions has addresses
too, which are good for nothing but to be passed on.
-/

/-- A part of memory with bounds of its own, or all the rest. -/
inductive Region where
  | buffer (index : Nat)
  | heap (index : Nat)
  /-- All that lies in no buffer and no block. Offsets count from zero. -/
  | unmapped
deriving DecidableEq, Repr, Inhabited

/-- The short name of a region. -/
def Region.label : Region → String
  | buffer index => "b" ++ toString index
  | heap index => "h" ++ toString index
  | unmapped => "unmapped"

/-- A byte of a region. -/
structure Address where
  region : Region
  offset : Nat
deriving DecidableEq, Repr, Inhabited

namespace Address

/-- The address `n` bytes further in the same region. -/
def advance (a : Address) (n : Nat) : Address :=
  { a with offset := a.offset + n }

/-- Addresses are added to numbers of bytes. -/
instance : HAdd Address Nat Address := ⟨advance⟩

/-- Going on by some bytes stays in the region. -/
@[simp] theorem region_add (a : Address) (n : Nat) : (a + n).region = a.region := rfl

/-- Going on adds to the offset. -/
@[simp] theorem offset_add (a : Address) (n : Nat) : (a + n).offset = a.offset + n := rfl

/-- Going on by nothing changes nothing. -/
@[simp] theorem add_zero (a : Address) : a + 0 = a := rfl

/-- Going on twice is going on by the sum. -/
theorem add_add (a : Address) (m n : Nat) : a + m + n = a + (m + n) := by
  cases a
  simp only [HAdd.hAdd, advance, Address.mk.injEq, true_and]
  exact Nat.add_assoc ..

/-- Region and offset, as in `b0+8`; outside all regions a bare number, as in `0x1f`. -/
def text (a : Address) : String :=
  match a.region with
  | .unmapped => "0x" ++ Inspect.hexadecimal a.offset
  | region => region.label ++ "+" ++ toString a.offset

end Address

end DerivedTypes
