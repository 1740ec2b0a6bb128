import DerivedTypes.Proofs.Allocation.Cases
import DerivedTypes.Proofs.DefaultValue.FreshStorage
import DerivedTypes.Proofs.Descriptor.Bounds
import DerivedTypes.Proofs.Descriptor.LenSlots

namespace DerivedTypes

/-!
# Established descriptors

A program makes descriptors with `initIntrinsic`, `initCharacter` and `initDerived`, and changes
them with a few other operations. All of them leave descriptors `Established` over the tables of the
program: the rank is no larger than a descriptor has room for, storage belongs to allocatables only,
and a type that is named is one of the tables.

* `SoundTables`: what is asked of the tables;
* `Descriptor.exists_establishIntrinsic` and the like: how the operations end, and what they leave.
-/

/-! ### Tables -/

/-- Instances of the type can be given default values and torn down without harm to the heap. -/
structure DerivedType.HeapSound (ty : DerivedType) : Prop extends TeardownSound ty where
  layout : ty.checkLayout = .ok ()
  zeroSlots : ty.ZeroSlots

/-- Every type whose instances lie in instances of a table is sound. -/
structure SoundTables (tables : Array DerivedType) : Prop where
  heapSound : ∀ (i : Nat) ty, tables[i]? = some ty → ty.Throughout DerivedType.HeapSound

namespace Descriptor

/-! ### Established descriptors -/

/-- A descriptor as operations leave it. -/
structure Established (tables : Array DerivedType) (d : Descriptor) : Prop where
  rank_le : d.rank.toNat ≤ maxRank
  allocatable : d.isAllocated = true → d.isAllocatable = true
  table : ∀ ty, d.addendumType = some ty → tables[ty.number]? = some ty
  elementSize_eq : ∀ ty, d.derivedType? = some ty → d.elementSize = ty.size

namespace Established

variable {tables : Array DerivedType} {d : Descriptor}

/-- A descriptor with storage owns it. -/
theorem isOwner_of_isAllocated (h : d.Established tables) (allocated : d.isAllocated = true) :
    d.isOwner = true := by
  rw [isOwner, h.allocatable allocated, allocated]
  rfl

/-- Without storage, only the rank and the type matter. -/
theorem of_unallocated (idle : d.base = none) (rank_le : d.rank.toNat ≤ maxRank)
    (table : ∀ ty, d.addendumType = some ty → tables[ty.number]? = some ty)
    (elementSize_eq : ∀ ty, d.derivedType? = some ty → d.elementSize = ty.size) :
    d.Established tables where
  rank_le := rank_le
  allocatable := by
    rw [isAllocated, idle]
    intro allocated
    cases allocated
  table := table
  elementSize_eq := elementSize_eq

/-- An allocatable may get storage anywhere. -/
theorem withStorage (h : d.Established tables) (allocatable : d.isAllocatable = true)
    (data : Address) :
    (d.withStorage data).Established tables where
  rank_le := h.rank_le
  allocatable := fun _ => allocatable
  table := h.table
  elementSize_eq := h.elementSize_eq

/-- Storage may be taken away. -/
theorem withoutBase (h : d.Established tables) : { d with base := none }.Established tables :=
  .of_unallocated rfl h.rank_le h.table h.elementSize_eq

/-- A zeroed descriptor is established. -/
theorem zeroed (tables : Array DerivedType) : Descriptor.zeroed.Established tables :=
  .of_unallocated rfl (by decide) nofun fun _ named => nomatch addendumType_of_derivedType? named

/-- A descriptor without storage is no owner. -/
theorem isOwner_eq (h : d.Established tables) : d.isOwner = d.isAllocated := by
  cases allocated : d.isAllocated with
  | true => exact h.isOwner_of_isAllocated allocated
  | false => rw [isOwner, allocated, Bool.and_false]

variable (sound : SoundTables tables)
include sound

/-- The type of an established descriptor has what the heap relies on. -/
theorem heapSound (h : d.Established tables) {ty : DerivedType} (named : d.derivedType? = some ty) :
    ty.Throughout DerivedType.HeapSound :=
  sound.heapSound _ ty (h.table ty (addendumType_of_derivedType? named))

/-- An established descriptor says what its elements are. -/
theorem typed (h : d.Established tables) : d.Typed := fun ty named =>
  ⟨h.elementSize_eq ty named, (h.heapSound sound named).imp fun _ sound => sound.toTeardownSound⟩

end Established

/-! ### New descriptors -/

variable {tables : Array DerivedType} {d d' : Descriptor}

/-- A rank that there is room for is stored as it is. -/
theorem toNat_rank {rank : Nat} (le : rank ≤ maxRank) : (UInt8.ofNat rank).toNat = rank :=
  UInt8.toNat_ofNat_of_lt' (Nat.lt_of_le_of_lt le (by decide))

/-- Storage of no more dimensions than there is room for can always be described. -/
theorem exists_establish {rank : Nat} (le : rank ≤ maxRank) (typeCode : TypeCode)
    (elementSize : UInt64) (base : Option Address) (attr : Attribute) :
    ∃ slots, d.establish typeCode elementSize base (.replicate rank 0) attr =
      .ok { d with
        base, elementSize, typeCode, attr, rank := .ofNat rank, dimensionSlots := slots } := by
  unfold establish
  rw [List.length_replicate, if_pos le]
  obtain ⟨bounded, ended⟩ := exists_setBounds (d := { d with
    base, elementSize, typeCode, attr
    rank := .ofNat rank
    dimensionSlots := .replicate 15 .empty }) (le_of_eq_of_le (toNat_rank le) le)
    ((List.replicate rank (0 : Subscript)).map fun _ => 1) (.replicate rank 0)
  obtain ⟨slots, rfl⟩ := eq_of_setBounds ended
  exact ⟨slots, ended⟩

/-- A new allocatable of intrinsic type is established and has no storage. -/
theorem exists_establishIntrinsic (tables : Array DerivedType) {rank : Nat} (le : rank ≤ maxRank)
    (typeCode : TypeCode) (elementSize : UInt64) :
    ∃ d', d.establishIntrinsic typeCode elementSize none (.replicate rank 0) .allocatable = .ok d' ∧
      d'.Established tables ∧ d'.isAllocated = false := by
  obtain ⟨slots, ended⟩ := d.exists_establish le typeCode elementSize none .allocatable
  refine ⟨_, by rw [establishIntrinsic, ended]; rfl, ?_, rfl⟩
  apply Established.of_unallocated rfl
  · show (UInt8.ofNat rank).toNat ≤ maxRank
    rwa [toNat_rank le]
  · exact nofun
  · exact fun _ named => nomatch addendumType_of_derivedType? named

/-- A new allocatable of derived type is established and has no storage, if the type is one of the
    tables. -/
theorem exists_initDerived {ty : DerivedType} (known : tables[ty.number]? = some ty) {rank : Nat}
    (le : rank ≤ maxRank) :
    ∃ d', d.initDerived ty rank = .ok d' ∧ d'.Established tables ∧ d'.isAllocated = false := by
  obtain ⟨slots, ended⟩ := d.exists_establish le .derived ty.size none .allocatable
  refine ⟨_, by rw [initDerived, establishDerived, ended]; rfl, ?_, rfl⟩
  apply Established.of_unallocated rfl
  · show (UInt8.ofNat rank).toNat ≤ maxRank
    rwa [toNat_rank le]
  · intro ty' named
    obtain rfl := Option.some.inj named
    exact known
  · intro ty' named
    obtain rfl := Option.some.inj (addendumType_of_derivedType? named)
    rfl

/-! ### Changes -/

/-- New bounds leave a descriptor established. -/
theorem Established.setBounds {lower upper : List Subscript} (h : d.Established tables)
    (bounds : d.setBounds lower upper = .ok d') : d'.Established tables := by
  obtain ⟨slots, rfl⟩ := eq_of_setBounds bounds
  exact ⟨h.rank_le, h.allocatable, h.table, h.elementSize_eq⟩

/-- Two descriptors describe the same storage: they differ at most in LEN values and in flags that
    say nothing about the addendum. -/
def SameStorage (d d' : Descriptor) : Prop :=
  ∃ flags lenValues, d' = { d with flags, lenValues } ∧ d'.hasAddendum = d.hasAddendum

namespace SameStorage

/-- The type of the elements is the same. -/
theorem derivedType?_eq (h : d.SameStorage d') : d'.derivedType? = d.derivedType? := by
  obtain ⟨flags, lenValues, rfl, same⟩ := h
  rw [derivedType?, derivedType?, same]

/-- A descriptor of the same storage is established as well. -/
theorem established (h : d.SameStorage d') (fine : d.Established tables) :
    d'.Established tables := by
  have named := h.derivedType?_eq
  obtain ⟨flags, lenValues, rfl, same⟩ := h
  exact ⟨fine.rank_le, fine.allocatable, fine.table, named ▸ fine.elementSize_eq⟩

/-- The descriptors in the storage are the same. -/
theorem slots_eq (h : d.SameStorage d') : d'.slots = d.slots := by
  have named := h.derivedType?_eq
  obtain ⟨flags, lenValues, rfl, same⟩ := h
  rw [slots, slots, named]
  rfl

/-- A block that is the storage for one is that for the other. -/
theorem backs (h : d.SameStorage d') {m : Memory} {block size : Nat}
    (backs : m.Backs d block size) :
    m.Backs d' block size := by
  have named := h.derivedType?_eq
  obtain ⟨flags, lenValues, rfl, same⟩ := h
  refine ⟨backs.allocatable, backs.base, backs.live, backs.size, ?_⟩
  rw [Typed, named]
  exact backs.typed

/-- A descriptor of the same storage owns the same blocks. -/
theorem owns (h : d.SameStorage d') {m : Memory} {P : Descriptor → Prop} {f : Forest} (fine : P d')
    (owns : m.Owns P [d] f) : m.Owns P [d'] f := by
  cases owns with
  | idle _ idle others =>
    refine .idle fine ?_ others
    obtain ⟨flags, lenValues, rfl, same⟩ := h
    exact idle
  | own _ backs readable contents others =>
    rw [← h.slots_eq] at readable contents
    exact .own fine (h.backs backs) readable contents others

end SameStorage

/-- Whether storage is finalized does not matter to what it is. -/
theorem sameStorage_suppressFinalization (d : Descriptor) (suppress : Bool) :
    d.SameStorage (d.suppressFinalization suppress) := by
  refine ⟨_, d.lenValues, rfl, ?_⟩
  -- The addendum has a bit of its own among the flags.
  show Nat.testBit _ 0 = Nat.testBit _ 0
  cases suppress with
  | true =>
    show (d.flags ||| 2).toNat.testBit 0 = _
    simp [UInt8.toNat_or]
  | false =>
    show (d.flags &&& ~~~2).toNat.testBit 0 = _
    simp [UInt8.toNat_and]

/-- Explicit LEN values change no storage. -/
theorem exists_applyLenValues (checked : ∀ ty, d.derivedType? = some ty → ty.checkLayout = .ok ())
    (values : List Subscript) :
    ∃ d' outcome, d.applyLenValues values = .ok (d', outcome) ∧ d.SameStorage d' := by
  obtain ⟨d', outcome, applied, lenValues, rfl⟩ := exists_withLenValues checked values
  exact ⟨_, outcome, applied, d.flags, lenValues, rfl, rfl⟩

end Descriptor

end DerivedTypes
