import Mathlib.Data.List.Basic
import Mathlib.Data.List.Nodup
import Mathlib.Data.List.Perm.Basic

namespace DerivedTypes

/-!
# Forests of blocks

A block on the heap may hold descriptors that own further blocks. A `Forest` says which block is
owned from inside which: several trees, one behind the other.

* `Forest.blocks`: the blocks with their sizes, each one after all blocks inside it;
* `Forest.Inside`: a block is owned from inside another one, directly or through others;
* `Forest.Similar`: two forests differ in the order of blocks that lie side by side, and in nothing
  that matters to the order in which blocks may be freed.
-/

/-- Trees of blocks: the first block with the blocks inside it, and the other trees. -/
inductive Forest where
  | nil
  | cons (block size : Nat) (inside rest : Forest)
deriving Inhabited

namespace Forest

/-- All blocks with their sizes. Those inside a block come before it. -/
def blocks : Forest → List (Nat × Nat)
  | nil => []
  | cons block size inside rest => inside.blocks ++ (block, size) :: rest.blocks

/-- The numbers of all blocks. -/
def numbers (f : Forest) : List Nat := f.blocks.map (·.1)

/-- How many blocks lie inside each other at most. -/
def height : Forest → Nat
  | nil => 0
  | cons _ _ inside rest => max (inside.height + 1) rest.height

/-- Trees behind trees. -/
def append : Forest → Forest → Forest
  | nil, g => g
  | cons block size inside rest, g => cons block size inside (rest.append g)

/-- Block `b` is owned from inside block `c`. -/
def Inside : Forest → Nat → Nat → Prop
  | nil, _, _ => False
  | cons block _ inside rest, b, c =>
    (c = block ∧ b ∈ inside.numbers) ∨ inside.Inside b c ∨ rest.Inside b c

/-- No trees have no blocks. -/
@[simp] theorem blocks_nil : nil.blocks = [] := rfl

/-- So they have no numbers either. -/
@[simp] theorem numbers_nil : nil.numbers = [] := rfl

/-- The blocks inside a block come before it. -/
theorem numbers_cons (block size : Nat) (inside rest : Forest) :
    (cons block size inside rest).numbers = inside.numbers ++ block :: rest.numbers := by
  simp [numbers, blocks]

/-- A block of a tree is inside, or the root, or in another tree. -/
@[simp] theorem mem_numbers_cons {b block size : Nat} {inside rest : Forest} :
    b ∈ (cons block size inside rest).numbers ↔ b ∈ inside.numbers ∨ b = block ∨
    b ∈ rest.numbers := by
  rw [numbers_cons, List.mem_append, List.mem_cons]

/-- Blocks of trees behind trees. -/
@[simp] theorem blocks_append (f g : Forest) : (f.append g).blocks = f.blocks ++ g.blocks := by
  induction f with
  | nil => rfl
  | cons block size inside rest _ ih => simp [append, blocks, ih]

/-- Numbers of trees behind trees. -/
@[simp] theorem numbers_append (f g : Forest) : (f.append g).numbers = f.numbers ++ g.numbers := by
  simp [numbers]

/-- The height is that of the highest tree. -/
theorem height_append (f g : Forest) : (f.append g).height = max f.height g.height := by
  induction f with
  | nil => exact (Nat.zero_max _).symm
  | cons block size inside rest _ ih => rw [append, height, height, ih, Nat.max_assoc]

/-- No more blocks lie inside each other than there are. -/
theorem height_le (f : Forest) : f.height ≤ f.numbers.length := by
  induction f with
  | nil => exact Nat.le_refl 0
  | cons block size inside rest insideLe restLe =>
    rw [height, numbers_cons, List.length_append, List.length_cons]
    omega

/-- Where a tree has room, there is one level for its root, and room for what is inside and beside
    it. -/
theorem exists_depth_of_height_le {block size depth : Nat} {inside rest : Forest}
    (deep : (cons block size inside rest).height ≤ depth) :
    ∃ below, depth = below + 1 ∧ inside.height ≤ below ∧ rest.height ≤ below + 1 := by
  rw [height] at deep
  exact ⟨depth - 1, by omega⟩

/-- Only blocks of the forest lie inside each other. -/
theorem Inside.mem {f : Forest} {b c : Nat} (h : f.Inside b c) : b ∈ f.numbers ∧ c ∈ f.numbers := by
  induction f with
  | nil => cases h
  | cons block size inside rest insideIh restIh =>
    simp only [mem_numbers_cons]
    rcases h with ⟨rfl, mem⟩ | h | h
    · exact ⟨.inl mem, .inr (.inl rfl)⟩
    · exact ⟨.inl (insideIh h).1, .inl (insideIh h).2⟩
    · exact ⟨.inr (.inr (restIh h).1), .inr (.inr (restIh h).2)⟩

/-- Blocks lie inside each other within the trees in front, or within those behind. -/
theorem inside_append {f g : Forest} {b c : Nat} :
    (f.append g).Inside b c ↔ f.Inside b c ∨ g.Inside b c := by
  induction f with
  | nil => simp [append, Inside]
  | cons block size inside rest _ ih => simp only [append, Inside, ih, or_assoc]

/-! ### Distinct blocks -/

/-- The blocks of a forest are all different. -/
def Distinct (f : Forest) : Prop := f.numbers.Nodup

instance (f : Forest) : Decidable f.Distinct := inferInstanceAs (Decidable f.numbers.Nodup)

namespace Distinct

variable {block size : Nat} {inside rest f g : Forest}

/-- The blocks inside a tree are different. -/
theorem of_inside (h : (cons block size inside rest).Distinct) : inside.Distinct := by
  rw [Distinct, numbers_cons] at h
  exact (List.nodup_append.mp h).1

/-- The root is not inside itself. -/
theorem not_mem_inside (h : (cons block size inside rest).Distinct) : block ∉ inside.numbers := by
  rw [Distinct, numbers_cons] at h
  exact fun mem => (List.nodup_append.mp h).2.2 block mem block List.mem_cons_self rfl

/-- Trees in front and trees behind have no block in common. -/
theorem of_append (h : (f.append g).Distinct) :
    f.Distinct ∧ g.Distinct ∧ ∀ b ∈ f.numbers, b ∉ g.numbers := by
  rw [Distinct, numbers_append] at h
  obtain ⟨first, second, apart⟩ := List.nodup_append.mp h
  exact ⟨first, second, fun b mem other => apart b mem b other rfl⟩

end Distinct

/-! ### Similar forests -/

/-- Two forests have the same blocks, and the same blocks lie inside each other. -/
structure Similar (f g : Forest) : Prop where
  blocks : f.blocks.Perm g.blocks
  inside : ∀ b c, f.Inside b c ↔ g.Inside b c
  height : f.height = g.height

namespace Similar

variable {f g k : Forest}

/-- A forest is similar to itself. -/
theorem refl (f : Forest) : f.Similar f := ⟨.refl _, fun _ _ => .rfl, rfl⟩

/-- Similarity goes on. -/
theorem trans (h : f.Similar g) (h' : g.Similar k) : f.Similar k :=
  ⟨h.blocks.trans h'.blocks, fun b c =>
    (h.inside b c).trans (h'.inside b c), h.height.trans h'.height⟩

/-- Similar forests have the same numbers, in some order. -/
theorem numbers (h : f.Similar g) : f.numbers.Perm g.numbers := h.blocks.map _

/-- A block is in both forests or in none. -/
theorem mem_iff (h : f.Similar g) {b : Nat} : b ∈ f.numbers ↔ b ∈ g.numbers := h.numbers.mem_iff

/-- Different blocks stay different. -/
theorem distinct (h : f.Similar g) (distinct : f.Distinct) : g.Distinct :=
  h.numbers.nodup_iff.mp distinct

/-- More of the same in front. -/
theorem cons (block size : Nat) (inside : Forest) (h : f.Similar g) :
    (Forest.cons block size inside f).Similar (Forest.cons block size inside g) where
  blocks := by
    rw [Forest.blocks, Forest.blocks]
    exact (h.blocks.cons _).append_left _
  inside := fun b c => by rw [Inside, Inside, h.inside]
  height := by rw [Forest.height, Forest.height, h.height]

/-- The same inside a block. -/
theorem node (block size : Nat) (h : f.Similar g) (rest : Forest) :
    (Forest.cons block size f rest).Similar (Forest.cons block size g rest) where
  blocks := h.blocks.append_right _
  inside := fun b c => by rw [Inside, Inside, h.mem_iff, h.inside]
  height := by rw [Forest.height, Forest.height, h.height]

/-- Two trees change places. -/
theorem swap (block size block' size' : Nat) (inside inside' rest : Forest) :
    (Forest.cons block size inside (.cons block' size' inside' rest)).Similar
      (Forest.cons block' size' inside' (.cons block size inside rest)) where
  blocks := by
    have first : ∀ (block size : Nat) (inside rest : Forest),
        (Forest.cons block size inside rest).blocks =
        (inside.blocks ++ [(block, size)]) ++ rest.blocks := by
      intro block size inside rest
      rw [Forest.blocks, List.append_assoc, List.singleton_append]
    simp only [first]
    exact List.perm_append_comm_assoc ..
  inside := fun b c => by
    simp only [Inside]
    tauto
  height := by
    simp only [Forest.height]
    omega

end Similar

/-! ### Orders of freeing -/

/-- In a list of freed blocks, no block comes after one that it lies inside. -/
def Ordered (f : Forest) (freed : List (Nat × Nat)) : Prop :=
  freed.Pairwise fun earlier later => ¬ f.Inside later.1 earlier.1

/-- An order that suits one forest suits all that are similar. -/
theorem Similar.ordered {f g : Forest} (h : f.Similar g) {freed : List (Nat × Nat)}
    (ordered : g.Ordered freed) : f.Ordered freed :=
  ordered.imp fun outside inside => outside ((h.inside _ _).mp inside)

/-- Blocks inside a block are freed first, and then the block. -/
theorem Ordered.node {block size : Nat} {inside : Forest} {freed : List (Nat × Nat)}
    (distinct : (Forest.cons block size inside .nil).Distinct) (ordered : inside.Ordered freed)
    (blocks : freed.Perm inside.blocks) :
    (Forest.cons block size inside .nil).Ordered (freed ++ [(block, size)]) := by
  have mem : ∀ x ∈ freed, x.1 ∈ inside.numbers := fun x there =>
    List.mem_map_of_mem (blocks.mem_iff.mp there)
  refine List.pairwise_append.mpr ⟨ordered.imp_of_mem ?_, List.pairwise_singleton .., ?_⟩
  · rintro x y memX _ outside (⟨same, _⟩ | within | within)
    · exact distinct.not_mem_inside (same ▸ mem x memX)
    · exact outside within
    · exact within
  · intro x memX y memY within
    obtain rfl := List.mem_singleton.mp memY
    rcases within with ⟨same, _⟩ | within | within
    · exact distinct.not_mem_inside (same ▸ mem x memX)
    · exact distinct.not_mem_inside within.mem.1
    · exact within

/-- Blocks of different trees may be freed one tree after the other. -/
theorem Ordered.append {f g : Forest} {first others : List (Nat × Nat)}
    (distinct : (f.append g).Distinct) (firstOrdered : f.Ordered first)
    (othersOrdered : g.Ordered others) (firstBlocks : first.Perm f.blocks)
    (othersBlocks : others.Perm g.blocks) :
    (f.append g).Ordered (first ++ others) := by
  obtain ⟨_, _, apart⟩ := distinct.of_append
  have memFirst : ∀ x ∈ first, x.1 ∈ f.numbers := fun x there =>
    List.mem_map_of_mem (firstBlocks.mem_iff.mp there)
  have memOthers : ∀ x ∈ others, x.1 ∈ g.numbers := fun x there =>
    List.mem_map_of_mem (othersBlocks.mem_iff.mp there)
  refine List.pairwise_append.mpr ⟨firstOrdered.imp_of_mem ?_, othersOrdered.imp_of_mem ?_, ?_⟩
  · intro x y memX _ outside within
    rcases inside_append.mp within with within | within
    · exact outside within
    · exact apart _ (memFirst x memX) within.mem.2
  · intro x y memX _ outside within
    rcases inside_append.mp within with within | within
    · exact apart _ within.mem.2 (memOthers x memX)
    · exact outside within
  · intro x memX y memY within
    rcases inside_append.mp within with within | within
    · exact apart _ within.mem.1 (memOthers y memY)
    · exact apart _ (memFirst x memX) within.mem.2

end Forest

end DerivedTypes
