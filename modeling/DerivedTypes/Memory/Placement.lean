import DerivedTypes.DerivedType.Basic

namespace DerivedTypes

/-!
# Placement

Memory holds a pointer as a number. Which number that is, no program decides: a `Loader` chooses
where tables and buffers lie, and an allocator where it puts blocks. A `Placement` is the record of
their choices. It lists a stretch of the address space for each region; those of freed blocks stay
in the list, and may be given again, so a number stands for the latest of the regions that it lies
in.

* `Placement.number`, `Placement.address`: the number of an address, and the address of a number;
* `Placement.addressWord`, `Placement.address?`: the same for the words that are stored, where zero
  is null;
* `Placement.Locates`: a word is enough to find an address again. A new region is found
  (`Placement.locates_place`), and if it lies apart from others, then these are found as before
  (`Placement.address?_place`);
* `TablesApart`: what is asked of the places of tables.
-/

/-! ### Stretches -/

/-- So many numbers, from the first one on. -/
structure Stretch where
  first : Nat
  length : Nat
deriving DecidableEq, Repr, Inhabited

namespace Stretch

variable {s t : Stretch} {n : Nat}

/-- The number right behind the stretch. -/
def stop (s : Stretch) : Nat := s.first + s.length

/-- A number lies in the stretch. -/
def Contains (s : Stretch) (n : Nat) : Prop := s.first ≤ n ∧ n < s.stop

instance (s : Stretch) (n : Nat) : Decidable (s.Contains n) := inferInstanceAs (Decidable (_ ∧ _))

/-- One of two stretches ends before the other one begins. -/
def Apart (s t : Stretch) : Prop := s.stop ≤ t.first ∨ t.stop ≤ s.first

instance (s t : Stretch) : Decidable (s.Apart t) := inferInstanceAs (Decidable (_ ∨ _))

/-- No number lies in two stretches that lie apart. -/
theorem Apart.not_contains (h : s.Apart t) (inside : s.Contains n) : ¬ t.Contains n := by
  rintro ⟨low, high⟩
  obtain ⟨low', high'⟩ := inside
  unfold Apart at h
  omega

/-- A stretch begins with a number of its own, unless it is empty. -/
theorem contains_first (positive : 0 < s.length) : s.Contains s.first :=
  ⟨Nat.le_refl _, Nat.lt_add_of_pos_right positive⟩

end Stretch

/-! ### Placements -/

/-- Where tables and regions lie. -/
structure Placement where
  /-- Where the table of a number lies. -/
  table : Nat → UInt64
  /-- The stretches of regions, that of the latest one first. -/
  regions : List (Region × Stretch)

namespace Placement

variable {p : Placement} {region : Region} {s : Stretch}

/-- The stretch of a region. -/
def stretch? (p : Placement) (region : Region) : Option Stretch := p.regions.lookup region

/-- The number of an address. In a region that has no stretch, and outside of all regions, it is the
    offset. -/
def number (p : Placement) (a : Address) : Nat :=
  match p.stretch? a.region with
  | some s => s.first + a.offset
  | none => a.offset

/-- The address of a number. -/
def address (p : Placement) (n : Nat) : Address :=
  match p.regions.find? (·.2.Contains n) with
  | some (region, s) => ⟨region, n - s.first⟩
  | none => ⟨.unmapped, n⟩

/-- The word for an address, or for none. -/
def addressWord (p : Placement) : Option Address → UInt64
  | none => 0
  | some a => .ofNat (p.number a)

/-- The address that a word stands for, if it is not null. -/
def address? (p : Placement) (word : UInt64) : Option Address :=
  if word = 0 then none else some (p.address word.toNat)

/-- An address is found again by its word. -/
def Locates (p : Placement) (a : Address) : Prop :=
  p.address? (p.addressWord (some a)) = some a

/-- A base is found again by its word, null or not. -/
theorem address?_addressWord {base : Option Address} (located : ∀ a, base = some a → p.Locates a) :
    p.address? (p.addressWord base) = base := by
  cases base with
  | none => rfl
  | some a => exact located a rfl

/-- No word but zero is null. -/
theorem address?_eq_none_iff {word : UInt64} : p.address? word = none ↔ word = 0 := by
  unfold address?
  split <;> simp [*]

/-- Numbers of a region follow each other as its bytes do. -/
theorem number_add (p : Placement) (a : Address) (n : Nat) : p.number (a + n) = p.number a + n := by
  unfold number
  rw [Address.region_add, Address.offset_add]
  cases p.stretch? a.region with
  | none => rfl
  | some s => exact (Nat.add_assoc ..).symm

/-- A word stands for an address in a region that has a stretch with this word, or in none. -/
theorem exists_of_address? {word : UInt64} {a : Address} (there : p.address? word = some a) :
    (∃ entry ∈ p.regions, entry.1 = a.region ∧ entry.2.Contains word.toNat) ∨
      a.region = .unmapped := by
  unfold address? at there
  split at there
  · cases there
  · obtain rfl := Option.some.inj there
    unfold address
    split
    · next found =>
      exact .inl ⟨_, List.mem_of_find?_eq_some found, rfl, by simpa using List.find?_some found⟩
    · exact .inr rfl

/-- A number behind all stretches. -/
def stop (p : Placement) : Nat :=
  p.regions.foldr (fun entry stop => max entry.2.stop stop) 0

/-- No stretch ends behind the end of all. -/
theorem stop_le (p : Placement) {entry : Region × Stretch} (mem : entry ∈ p.regions) :
    entry.2.stop ≤ p.stop := by
  unfold stop
  generalize p.regions = entries at mem
  induction entries with
  | nil => cases mem
  | cons first rest ih =>
    rcases List.mem_cons.mp mem with rfl | later
    · exact Nat.le_max_left ..
    · exact Nat.le_trans (ih later) (Nat.le_max_right ..)

/-! ### New regions -/

/-- Puts a region into a stretch. -/
def place (p : Placement) (region : Region) (s : Stretch) : Placement :=
  { p with regions := (region, s) :: p.regions }

/-- What was put into a stretch begins with its first number. -/
@[simp] theorem stretch?_place_self (p : Placement) (region : Region) (s : Stretch) :
    (p.place region s).stretch? region = some s := by
  simp [stretch?, place]

/-- Other regions stay where they are. -/
theorem stretch?_place_of_ne {other : Region} (ne : other ≠ region) :
    (p.place region s).stretch? other = p.stretch? other := by
  have differs : (other == region) = false := by simpa using ne
  rw [stretch?, place, List.lookup_cons, differs]
  rfl

/-- So do the words for their addresses. -/
theorem addressWord_place_of_ne {a : Address} (ne : a.region ≠ region) :
    (p.place region s).addressWord (some a) = p.addressWord (some a) := by
  rw [addressWord, addressWord, number, number, stretch?_place_of_ne ne]

/-- A region that was put somewhere is found there, unless its place is null or has no word. -/
theorem locates_place (p : Placement) (region : Region) (not_null : 0 < s.first)
    (positive : 0 < s.length) (fits : s.stop ≤ UInt64.size) :
    (p.place region s).Locates ⟨region, 0⟩ := by
  have inside := Stretch.contains_first positive
  have number : (p.place region s).number ⟨region, 0⟩ = s.first := by
    simp [Placement.number]
  have word : (UInt64.ofNat s.first).toNat = s.first :=
    UInt64.toNat_ofNat_of_lt' (Nat.lt_of_lt_of_le inside.2 fits)
  have nonzero : UInt64.ofNat s.first ≠ 0 := fun null => by
    rw [← word, null] at not_null
    exact absurd not_null (by decide)
  -- The latest region comes first.
  have found : (p.place region s).regions.find? (·.2.Contains s.first) = some (region, s) := by
    simp [place, inside]
  rw [Locates, addressWord, number, address?, if_neg nonzero, word, address, found]
  simp

/-- A word outside of the stretch stands for what it stood for. -/
theorem address?_place_of_not_contains {word : UInt64} (outside : ¬ s.Contains word.toNat) :
    (p.place region s).address? word = p.address? word := by
  have found : (p.place region s).regions.find? (·.2.Contains word.toNat) =
      p.regions.find? (·.2.Contains word.toNat) := by
    simp [place, outside]
  rw [address?, address?, address, address, found]

/-- A word for a region that lies apart from the stretch stands for what it stood for. -/
theorem address?_place {word : UInt64} {a : Address} (there : p.address? word = some a)
    (mapped : a.region ≠ .unmapped)
    (apart : ∀ entry ∈ p.regions, entry.1 = a.region → entry.2.Apart s) :
    (p.place region s).address? word = some a := by
  obtain ⟨entry, mem, same, inside⟩ := (exists_of_address? there).resolve_right mapped
  rw [address?_place_of_not_contains ((apart entry mem same).not_contains inside), there]

/-! ### Tables -/

/-- The word for a table, or for none. -/
def tableWord (p : Placement) : Option DerivedType → UInt64
  | none => 0
  | some ty => p.table ty.number

end Placement

/-- So many tables lie at places of their own, none of which is null. -/
structure TablesApart (table : Nat → UInt64) (count : Nat) : Prop where
  not_null : ∀ i < count, table i ≠ 0
  injective : ∀ i < count, ∀ j < count, table i = table j → i = j

/-! ### Loaders -/

/-- What gives tables and buffers their places, before a program begins. -/
structure Loader where
  /-- Where the table of a number lies. -/
  table : Nat → UInt64
  /-- Where the buffer of a number lies. -/
  buffer : Nat → Stretch

namespace Loader

/-- Where tables and so many buffers lie. -/
def placement (l : Loader) (buffers : Nat) : Placement where
  table := l.table
  regions := (List.range buffers).reverse.map fun i => (.buffer i, l.buffer i)

/-- Length of the stretches of a loader that puts one behind the other. -/
def stretchBytes : Nat := 0x10000000

/-- The loader that a number picks. It puts tables behind each other, and so it does with buffers,
    from some page on. -/
def ofSeed (seed : Nat) : Loader where
  table := fun i => .ofNat (0x540000000010 + 0x1000 * (seed % stretchBytes) + 0x400 * i)
  buffer :=
    fun i => ⟨0x550000000010 + 0x1000 * (seed % stretchBytes) + stretchBytes * i, stretchBytes⟩

instance : Inhabited Loader := ⟨ofSeed 0⟩

end Loader

instance : Inhabited Placement := ⟨(default : Loader).placement 1⟩

end DerivedTypes
