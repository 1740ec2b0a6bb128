import DerivedTypes.Proofs.Allocation.Cases
import DerivedTypes.Proofs.Descriptor.Bounds
import DerivedTypes.Proofs.Descriptor.LenSlots
import DerivedTypes.Recording
import Mathlib.Logic.Relation

namespace DerivedTypes

/-!
# Explicit LEN values and allocations

Explicit LEN values are given to a variable while it has no storage, and are checked once it has.
What happens to the variable in between are allocations and deallocations. They change its bounds
and its base, but not the addendum, where the values lie. So the values that are found later are the
ones that were given, and no other list passes the check.

* `Descriptor.TakesLenValues`: what explicit values change, and what they leave;
* `Descriptor.SameAddendum`: no allocation or deallocation changes the addendum, and so no number of
  them does;
* `Descriptor.applyLenValues_then_allocate`: values that were taken are the only ones that pass
  after an allocation.
-/

namespace Descriptor

variable {ty : DerivedType} {env : Environment} {d d' d'' : Descriptor} {explicit : List Subscript}
  {lower upper : List Subscript} {outcome : Outcome} {M M' : Machine}

/-! ### Values that are taken -/

/-- The descriptor takes explicit values: the LEN parameters of the type have them, in declaration
    order, and nothing else changes. -/
structure TakesLenValues (ty : DerivedType) (explicit : List Subscript) (d d' : Descriptor) :
    Prop where
  holds : d'.HoldsInOrder ty explicit
  kind : ∀ p ∈ ty.parameters, p.isKind → p.valueIn d' = p.valueIn d
  others : ∀ slot, slot ∉ lenSlotsOf ty → d'.lenValue slot = d.lenValue slot
  rest : ∃ lenValues, d' = { d with lenValues }

/-- Values that are stored in different slots are taken. -/
theorem takesLenValues_put (accepted : ty.checkLayout = .ok ()) (distinct : (lenSlotsOf ty).Nodup)
    (count : explicit.length = ty.lenParameters.length) (d : Descriptor) :
    d.TakesLenValues ty explicit
      { d with lenValues := putLenValues d.lenValues ((lenSlotsOf ty).zip explicit) } := by
  have slots : ((lenSlotsOf ty).zip explicit).map (·.1) = lenSlotsOf ty :=
    List.map_fst_zip (by rw [length_lenSlotsOf accepted, count])
  refine ⟨?_, fun p _ kind => ?_, fun slot absent => lenValue_congr ?_, _, rfl⟩
  · rw [holdsInOrder_iff accepted]
    rintro ⟨slot, value⟩ mem
    exact getElem?_putLenValues_of_mem _ (by rwa [slots]) mem
      (slot_lt_of_checkLayout accepted (List.of_mem_zip mem).1)
  · rw [TypeParameter.valueIn_of_isKind kind, TypeParameter.valueIn_of_isKind kind]
  · exact getElem?_putLenValues_of_notMem _ (by rwa [slots])

/-! ### Statements in between -/

/-- The descriptors have the same addendum, with the same values. -/
structure SameAddendum (d d' : Descriptor) : Prop where
  flags_eq : d'.flags = d.flags
  addendumType_eq : d'.addendumType = d.addendumType
  lenValues_eq : d'.lenValues = d.lenValues

namespace SameAddendum

/-- A descriptor has the addendum that it has. -/
theorem refl (d : Descriptor) : d.SameAddendum d :=
  ⟨rfl, rfl, rfl⟩

/-- What keeps the addendum twice keeps it. -/
theorem trans (h : d.SameAddendum d') (h' : d'.SameAddendum d'') : d.SameAddendum d'' :=
  ⟨h'.flags_eq.trans h.flags_eq, h'.addendumType_eq.trans h.addendumType_eq,
    h'.lenValues_eq.trans h.lenValues_eq⟩

/-- The type of the elements is part of the addendum. -/
theorem derivedType?_eq (h : d.SameAddendum d') : d'.derivedType? = d.derivedType? := by
  rw [derivedType?, derivedType?, hasAddendum, hasAddendum, h.flags_eq, h.addendumType_eq]

/-- The values of LEN parameters are part of the addendum. -/
theorem holdsInOrder (h : d.SameAddendum d') (holds : d.HoldsInOrder ty explicit) :
    d'.HoldsInOrder ty explicit := by
  intro n p value there given
  rw [p.valueIn_congr h.lenValues_eq]
  exact holds n p value there given

end SameAddendum

/-- An ALLOCATE or DEALLOCATE statement that comes to an end, with success or without. -/
inductive AllocationStatement : Descriptor → Descriptor → Prop where
  | allocate {d d' : Descriptor} {env : Environment} {lower upper : List Subscript}
      {outcome : Outcome} {M M' : Machine}
      (ended : d.allocate env lower upper M = .ok (d', outcome) M') : AllocationStatement d d'
  | deallocate {d d' : Descriptor} {env : Environment} {finalize : Bool}
      {outcome : Outcome} {M M' : Machine}
      (ended : d.deallocate env finalize M = .ok (d', outcome) M') : AllocationStatement d d'

/-- An allocation sets bounds and a base at most. -/
theorem sameAddendum_of_allocate (ended : d.allocate env lower upper M = .ok (d', outcome) M') :
    d.SameAddendum d' := by
  obtain ⟨_, _, rfl, _⟩ | ⟨_, bounded, _, bounds, ⟨_, rfl, _⟩ | ⟨_, taken⟩⟩ := allocate_cases ended
  · exact .refl d'
  · obtain ⟨_, rfl⟩ := eq_of_setBounds bounds
    exact ⟨rfl, rfl, rfl⟩
  · obtain ⟨_, rfl⟩ := eq_of_setBounds bounds
    obtain ⟨rfl, _⟩ := eq_of_takeBlock_eq_ok taken
    exact ⟨rfl, rfl, rfl⟩

/-- After an allocation that succeeds, the variable has storage. -/
theorem isAllocated_of_allocate (ended : d.allocate env lower upper M = .ok (d', .ok ()) M') :
    d'.isAllocated = true := by
  obtain ⟨_, _, _, failed, _⟩ | ⟨_, _, _, _, ⟨_, _, failed, _⟩ | ⟨_, taken⟩⟩ := allocate_cases ended
  · cases failed
  · cases failed
  · obtain ⟨rfl, _⟩ := eq_of_takeBlock_eq_ok taken
    rfl

/-- A deallocation takes the base away at most. -/
theorem sameAddendum_of_deallocate {finalize : Bool}
    (ended : d.deallocate env finalize M = .ok (d', outcome) M') :
    d.SameAddendum d' := by
  unfold deallocate at ended
  cases allocatable : d.isAllocatable with
  | false =>
    rw [allocatable] at ended
    cases ended
    exact .refl d
  | true =>
    rw [allocatable] at ended
    cases base : d.base with
    | none =>
      rw [base] at ended
      cases ended
      exact .refl d
    | some data =>
      rw [base] at ended
      obtain ⟨_, _, _, ended⟩ := Run.exists_of_bind_eq_ok ended
      obtain ⟨_, _, _, ended⟩ := Run.exists_of_bind_eq_ok ended
      cases ended
      exact ⟨rfl, rfl, rfl⟩

/-- No statement about the storage changes the addendum. -/
theorem AllocationStatement.sameAddendum (h : AllocationStatement d d') : d.SameAddendum d' := by
  cases h with
  | allocate ended => exact sameAddendum_of_allocate ended
  | deallocate ended => exact sameAddendum_of_deallocate ended

/-- However many statements there are, the addendum stays the same. -/
theorem sameAddendum_of_statements (h : Relation.ReflTransGen AllocationStatement d d') :
    d.SameAddendum d' := by
  induction h with
  | refl => exact .refl d
  | tail _ last ih => exact ih.trans last.sameAddendum

/-! ### Values that pass -/

/-- Values that were taken are the only ones that a variable with storage accepts. -/
theorem exists_applyLenValues_iff_eq (accepted : ty.checkLayout = .ok ())
    (named : d.derivedType? = some ty) (allocated : d.isAllocated = true)
    (holds : d.HoldsInOrder ty explicit) (count : explicit.length = ty.lenParameters.length)
    (values : List Subscript) :
    ∃ outcome, d.applyLenValues values = .ok (d, outcome) ∧
    (outcome = .ok () ↔ values = explicit) := by
  by_cases few : values.length = ty.lenParameters.length
  · obtain ⟨outcome, ended, iff⟩ := applyLenValues_of_allocated named accepted few allocated
    refine ⟨outcome, ended, iff.trans ⟨fun held => held.unique holds few count, ?_⟩⟩
    rintro rfl
    exact holds
  · refine ⟨_, applyLenValues_of_length_ne named few, ?_⟩
    constructor
    · nofun
    · rintro rfl
      exact absurd count few

/-- For an accepted type whose LEN parameters have different slots: a variable without storage takes
    explicit values if there is one for each LEN parameter. Whatever statements follow, after an
    allocation that succeeds it accepts these values and no others, and is not changed. Values that
    are not accepted never change a variable. -/
theorem applyLenValues_then_allocate (accepted : ty.checkLayout = .ok ())
    (distinct : (lenSlotsOf ty).Nodup) (named : d.derivedType? = some ty)
    (explicit : List Subscript) :
    (d.isAllocated = false → ∃ d' outcome, d.applyLenValues explicit = .ok (d', outcome) ∧
      (outcome = .ok () ↔ explicit.length = ty.lenParameters.length) ∧
      (outcome = .ok () → d.TakesLenValues ty explicit d' ∧
        ∀ d₁ env lower upper M d₂ M', Relation.ReflTransGen AllocationStatement d' d₁ →
          d₁.allocate env lower upper M = .ok (d₂, .ok ()) M' →
          ∀ values, ∃ outcome, d₂.applyLenValues values = .ok (d₂, outcome) ∧
            (outcome = .ok () ↔ values = explicit))) ∧
    ∀ (d d' : Descriptor) values e, d.applyLenValues values = .ok (d', .error e) → d' = d := by
  refine ⟨fun unallocated => ?_, fun _ _ _ _ failed => eq_of_applyLenValues_error failed⟩
  by_cases count : explicit.length = ty.lenParameters.length
  · have takes := takesLenValues_put accepted distinct count d
    refine ⟨_, _, applyLenValues_of_unallocated named accepted count unallocated,
      iff_of_true rfl count,
      fun _ => ⟨takes, fun d₁ env lower upper M d₂ M' before ended values => ?_⟩⟩
    have kept := (sameAddendum_of_statements before).trans (sameAddendum_of_allocate ended)
    exact exists_applyLenValues_iff_eq accepted (kept.derivedType?_eq.trans named)
      (isAllocated_of_allocate ended)
      (kept.holdsInOrder takes.holds) count values
  · exact ⟨d, _, applyLenValues_of_length_ne named count, ⟨nofun, fun eq => absurd eq count⟩, nofun⟩

end Descriptor

/-! ### Matrices -/

namespace Matrices

/-- A variable for matrices, without storage. -/
def unsized : Descriptor :=
  { Descriptor.zeroed with
    attr := .allocatable, rank := 1, elementSize := 16, typeCode := .derived, flags := 1,
      addendumType := some matrix }

/-- The variable for matrices of three rows and five columns. -/
def threeByFive : Descriptor :=
  { unsized with lenValues := #v[5, 3, 0, 0, 0, 0, 0, 0] }

end Matrices

open Matrices in
/-- The rows come first among the values, and last among the slots. With two matrices in storage,
    three rows and five columns are right, and five rows and three columns are not. -/
theorem Descriptor.threeByFive_allocated :
    unsized.applyLenValues [3, 5] = .ok (threeByFive, .ok ()) ∧
    unsized.TakesLenValues matrix [3, 5] threeByFive ∧
    ∃ d₂ M', threeByFive.allocate (.ofRecordings .host false #[] 64) [1] [2]
        ⟨.ofBuffers default #[] [], #[]⟩ =
        .ok (d₂, .ok ()) M' ∧
      d₂.applyLenValues [3, 5] = .ok (d₂, .ok ()) ∧ ∃ e,
      d₂.applyLenValues [5, 3] = .ok (d₂, .error e) := by
  have accepted : matrix.checkLayout = .ok () := by decide
  obtain ⟨taken, _⟩ := applyLenValues_then_allocate (d := unsized) accepted (by decide) rfl [3, 5]
  obtain ⟨_, _, ended, _, after⟩ := taken rfl
  have applied : unsized.applyLenValues [3, 5] = .ok (threeByFive, .ok ()) := rfl
  cases applied.symm.trans ended
  obtain ⟨takes, after⟩ := after rfl
  have allocated : threeByFive.allocate (.ofRecordings .host false #[] 64) [1] [2]
      ⟨.ofBuffers default #[] [], #[]⟩ = .ok (_, .ok ()) _ := rfl
  obtain ⟨_, right, iff⟩ := after _ _ _ _ _ _ _ .refl allocated [3, 5]
  obtain ⟨outcome, wrong, iff'⟩ := after _ _ _ _ _ _ _ .refl allocated [5, 3]
  refine ⟨applied, takes, _, _, allocated, (iff.mpr rfl) ▸ right, ?_⟩
  cases outcome with
  | ok => exact absurd (iff'.mp rfl) (by decide)
  | error e => exact ⟨e, wrong⟩

end DerivedTypes
