import DerivedTypes.Machine.Event
import DerivedTypes.Memory.Basic

namespace DerivedTypes

/-!
# Machines and allocators

A `Machine` is what operations run on. Its `Allocator` may refuse a request for any reason, also
because of what happened so far, and may put a block anywhere, as long as the block overlaps nothing
live (`Memory.HasRoom`). So there is no limit to what it may grant but the address space, and the
stretch of a freed block may be used again.

* `Allocator.exhausted` grants nothing;
* `Allocator.bump` grants requests up to a limit, and puts each block behind everything before it.
-/

/-- Memory, and what happened so far, latest last. -/
structure Machine where
  memory : Memory
  events : Array Event
deriving Inhabited

namespace Memory

/-- What allocators ask blocks to be aligned for. -/
def blockAlignment : Nat := 16

/-- A stretch is good for a new block of so many bytes: it does not begin at null, it is aligned, it
    has room for the block and ends within the address space, and it overlaps nothing that is
    live. -/
structure HasRoom (m : Memory) (size : Nat) (s : Stretch) : Prop where
  not_null : 0 < s.first
  aligned : blockAlignment ∣ s.first
  size_le : size ≤ s.length
  stop_le : s.stop ≤ UInt64.size
  apart : ∀ entry ∈ m.placement.regions, (m.region? entry.1).isSome → entry.2.Apart s

end Memory

/-- An allocator decides which requests it grants, and where it puts the blocks. All that is asked
    of it is that a block overlaps nothing live. -/
structure Allocator where
  /-- Whether it grants a request of so many bytes. -/
  grants : Machine → Nat → Bool
  /-- Where it puts a block of so many bytes. -/
  place : Machine → Nat → Stretch
  hasRoom : ∀ M size, grants M size → M.memory.HasRoom size (place M size)

namespace Allocator

/-- An allocator that grants nothing. -/
def exhausted : Allocator where
  grants := fun _ _ => false
  place := fun _ _ => default
  hasRoom := nofun

/-- Where the heap of `Allocator.bump` begins, far from the values that small integers have. -/
def heapStart : Nat := 0x600000000000

/-- The first aligned number on the heap that is behind all that lies anywhere. -/
def bumpFirst (m : Memory) : Nat :=
  (max heapStart m.placement.stop + Memory.blockAlignment - 1) / Memory.blockAlignment *
  Memory.blockAlignment

/-- Where `Allocator.bump` puts a block. -/
def bumpStretch (m : Memory) (size : Nat) : Stretch where
  first := bumpFirst m
  length := max Loader.stretchBytes size

/-- There is room behind everything else, unless the address space ends there. -/
theorem hasRoom_bumpStretch {m : Memory} {size : Nat}
    (stop_le : (bumpStretch m size).stop ≤ UInt64.size) :
    m.HasRoom size (bumpStretch m size) := by
  have behind : max heapStart m.placement.stop ≤ bumpFirst m := by
    simp only [bumpFirst, Memory.blockAlignment]
    omega
  have not_null : 0 < heapStart := by decide
  refine ⟨by simp only [bumpStretch]; omega, Nat.dvd_mul_left .., Nat.le_max_right .., stop_le, ?_⟩
  intro entry mem _
  have stop_le := m.placement.stop_le mem
  exact .inl (show entry.2.stop ≤ bumpFirst m by omega)

/-- An allocator that uses no stretch twice. It grants every request up to a limit, until the
    address space ends. -/
def bump (limit : Nat) : Allocator where
  grants := fun M size => size ≤ limit && (bumpStretch M.memory size).stop ≤ UInt64.size
  place := fun M size => bumpStretch M.memory size
  hasRoom :=
    fun _ _ granted => hasRoom_bumpStretch (of_decide_eq_true (Bool.and_eq_true_iff.mp granted).2)

/-- Which requests it grants. -/
theorem grants_bump_iff {limit : Nat} {M : Machine} {size : Nat} :
    (bump limit).grants M size = true ↔
      size ≤ limit ∧ (bumpStretch M.memory size).stop ≤ UInt64.size := by
  simp [bump]

end Allocator

end DerivedTypes
