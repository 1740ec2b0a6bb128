import DerivedTypes.Descriptor.Text
import DerivedTypes.Machine.Allocation
import DerivedTypes.Proofs.DerivedType.Parameters
import Mathlib.Data.List.Forall2

namespace DerivedTypes

/-!
# LEN parameters and their slots

A descriptor has eight slots for the values of LEN parameters, and fails at any other slot. The
layout check looks at the slots of the parameters that are not counted as KIND parameters. That is
enough for all parameters to have a value in every descriptor (`TypeParameter.HasRoom`), whatever
else is in it. Explicit values meet the slots through the list `Descriptor.lenSlotsOf`, in which no
parameter of an accepted table is left out, so the n-th value belongs to the n-th LEN parameter.

* `TypeParameter.exists_valueIn_iff`: there is a value if and only if there is room;
* `Descriptor.storeLenValues_eq`, `Descriptor.holdsLenValues_eq`: storing and comparing values,
  without failures;
* `Descriptor.getElem?_putLenValues_of_mem`: different slots are read back as they were written, in
  whatever order;
* `Descriptor.applyLenValues_of_allocated`, `Descriptor.applyLenValues_of_unallocated`: explicit
  values are compared with those that a descriptor holds, or are stored in it;
* `DerivedType.slots_in_range_of_checkLayout`: no operation on an accepted table fails at a slot.
-/

/-! ### Values of parameters -/

namespace Descriptor

variable {d d' : Descriptor} {slot : Nat} {value : Subscript}

/-- The value in a slot can be had if there is such a slot. -/
theorem lenValue_eq_ok_iff : d.lenValue slot = .ok value ↔ d.lenValues[slot]? = some value := by
  by_cases lt : slot < 8
  · rw [lenValue, dif_pos lt, Vector.getElem?_eq_getElem lt, Except.ok.injEq, Option.some.injEq]
  · rw [lenValue, dif_neg lt, Vector.getElem?_eq_none (Nat.not_lt.mp lt)]
    simp

/-- Descriptors that agree on a slot have the same value there. -/
theorem lenValue_congr {slot : Nat} (same : d'.lenValues[slot]? = d.lenValues[slot]?) :
    d'.lenValue slot = d.lenValue slot := by
  by_cases lt : slot < 8
  · rw [lenValue, lenValue, dif_pos lt, dif_pos lt]
    simpa [lt] using same
  · rw [lenValue, lenValue, dif_neg lt, dif_neg lt]

end Descriptor

namespace TypeParameter

variable {p : TypeParameter} {d d' : Descriptor} {slot : Nat} {value : Subscript}

/-- The parameter has no slot, or one that a descriptor has. -/
def HasRoom (p : TypeParameter) : Prop :=
  ∀ slot, p.slot? = some slot → slot < lenSlots

/-- A KIND parameter has its own value in each descriptor. -/
theorem valueIn_of_isKind (kind : p.isKind) (d : Descriptor) : p.valueIn d = .ok p.value := by
  rw [valueIn, Option.isNone_iff_eq_none.mp kind]

/-- A LEN parameter has the value in its slot. -/
theorem valueIn_of_slot? (same : p.slot? = some slot) (d : Descriptor) :
    p.valueIn d = d.lenValue slot := by
  rw [valueIn, same]

/-- Descriptors that agree on all slots give all parameters the same values. -/
theorem valueIn_congr (same : d'.lenValues = d.lenValues) (p : TypeParameter) :
    p.valueIn d' = p.valueIn d := by
  unfold valueIn Descriptor.lenValue
  rw [same]

/-- A parameter has a value in every descriptor, or in none. -/
theorem exists_valueIn_iff : (∃ value, p.valueIn d = .ok value) ↔ p.HasRoom := by
  unfold HasRoom
  cases same : p.slot? with
  | none => simp [valueIn, same]
  | some slot =>
    simp only [valueIn_of_slot? same, Descriptor.lenValue_eq_ok_iff, Option.some.injEq, forall_eq']
    rw [← Option.isSome_iff_exists, isSome_getElem?]
    rfl

end TypeParameter

namespace DerivedType

variable {ty : DerivedType} {p : TypeParameter} {slot : Nat}

/-- All parameters of an accepted table have room in a descriptor. -/
theorem hasRoom_of_checkLayout (accepted : ty.checkLayout = .ok ()) (mem : p ∈ ty.parameters) :
    p.HasRoom := by
  intro slot same
  rw [← parameters_eq, List.mem_append] at mem
  rcases mem with kind | len
  · cases same.symm.trans (Option.isNone_iff_eq_none.mp (isKind_of_mem_kindParameters kind))
  · obtain ⟨slot', same', lt⟩ := exists_slot_of_checkLayout accepted len
    cases same.symm.trans same'
    exact lt

end DerivedType

namespace Descriptor

variable {ty : DerivedType} {d d' : Descriptor} {slot : Nat} {value : Subscript}
  {values : List (Nat × Subscript)} {explicit explicit' : List Subscript}

/-! ### Slots -/

/-- Each LEN parameter of an accepted table has its slot. -/
theorem map_slot?_lenParameters (accepted : ty.checkLayout = .ok ()) :
    ty.lenParameters.map (·.slot?) = (lenSlotsOf ty).map some := by
  have each : ∀ p ∈ ty.lenParameters, ∃ slot, p.slot? = some slot ∧ slot < lenSlots :=
    fun p => DerivedType.exists_slot_of_checkLayout accepted
  unfold lenSlotsOf
  generalize ty.lenParameters = parameters at each
  induction parameters with
  | nil => rfl
  | cons p rest ih =>
    obtain ⟨⟨slot, same, _⟩, others⟩ := List.forall_mem_cons.mp each
    rw [List.map_cons, ih others, List.filterMap_cons_some same, List.map_cons, same]

/-- An accepted table has one slot for each LEN parameter. -/
theorem length_lenSlotsOf (accepted : ty.checkLayout = .ok ()) :
    (lenSlotsOf ty).length = ty.lenParameters.length := by
  simpa using (congrArg List.length (map_slot?_lenParameters accepted)).symm

/-- The slots are in the order of the parameters. -/
theorem getElem?_lenSlotsOf_eq_some_iff (accepted : ty.checkLayout = .ok ()) {n : Nat} :
    (lenSlotsOf ty)[n]? = some slot ↔ ∃ p, ty.lenParameters[n]? = some p ∧ p.slot? = some slot := by
  have same : ty.lenParameters[n]?.map (·.slot?) = (lenSlotsOf ty)[n]?.map some := by
    rw [← List.getElem?_map, ← List.getElem?_map, map_slot?_lenParameters accepted]
  rw [← Option.map_eq_some_iff, same]
  simp

/-- There is room for the slots of an accepted table. -/
theorem slot_lt_of_checkLayout (accepted : ty.checkLayout = .ok ()) (mem : slot ∈ lenSlotsOf ty) :
    slot < 8 := by
  obtain ⟨p, len, same⟩ := List.mem_filterMap.mp mem
  have there : p ∈ ty.parameters := ty.parameters_eq ▸ List.mem_append_right _ len
  exact DerivedType.hasRoom_of_checkLayout accepted there slot same

/-! ### Storing values and comparing them -/

/-- The slots with new values, stored one after the other. -/
def putLenValues (lenValues : Vector Subscript 8) (values : List (Nat × Subscript)) :
    Vector Subscript 8 :=
  values.foldl (fun lenValues v => lenValues.setIfInBounds v.1 v.2) lenValues

/-- Values are stored as long as there are slots for them. -/
theorem storeLenValues_eq (fit : ∀ v ∈ values, v.1 < 8) :
    d.storeLenValues values = .ok { d with lenValues := putLenValues d.lenValues values } := by
  unfold storeLenValues putLenValues
  induction values generalizing d with
  | nil => cases d; rfl
  | cons v rest ih =>
    obtain ⟨own, others⟩ := List.forall_mem_cons.mp fit
    have stored : d.setLenValue v.1 v.2 =
        .ok { d with lenValues := d.lenValues.setIfInBounds v.1 v.2 } := by
      rw [setLenValue, dif_pos own]
      congr 2
      exact Vector.ext fun i lt => by rw [Vector.getElem_set, Vector.getElem_setIfInBounds]
    rw [List.foldlM_cons, List.foldl_cons]
    show (d.setLenValue v.1 v.2 >>= _) = _
    rw [stored]
    exact ih others

/-- A slot that is not written keeps its value. -/
theorem getElem?_putLenValues_of_notMem (lenValues : Vector Subscript 8)
    (absent : slot ∉ values.map (·.1)) :
    (putLenValues lenValues values)[slot]? = lenValues[slot]? := by
  unfold putLenValues
  induction values generalizing lenValues with
  | nil => rfl
  | cons v rest ih =>
    rw [List.map_cons, List.mem_cons, not_or] at absent
    rw [List.foldl_cons, ih _ absent.2, Vector.getElem?_setIfInBounds_ne (Ne.symm absent.1)]

/-- Different slots hold what was written to them, in whatever order. -/
theorem getElem?_putLenValues_of_mem (lenValues : Vector Subscript 8)
    (distinct : (values.map (·.1)).Nodup) (mem : (slot, value) ∈ values) (lt : slot < 8) :
    (putLenValues lenValues values)[slot]? = some value := by
  unfold putLenValues
  induction values generalizing lenValues with
  | nil => cases mem
  | cons v rest ih =>
    obtain ⟨absent, others⟩ := List.nodup_cons.mp distinct
    rw [List.foldl_cons]
    rcases List.mem_cons.mp mem with rfl | later
    · -- No later value goes to this slot.
      rw [← putLenValues, getElem?_putLenValues_of_notMem _ absent,
        Vector.getElem?_setIfInBounds_self, if_pos lt]
    · exact ih _ others later

/-- Values are compared as long as there are slots for them. -/
theorem holdsLenValues_eq (fit : ∀ v ∈ values, v.1 < 8) :
    d.holdsLenValues values = .ok (values.all fun v => d.lenValues[v.1]? == some v.2) := by
  unfold holdsLenValues
  induction values with
  | nil => rfl
  | cons v rest ih =>
    -- The comparison ends at the first difference, where the result is known.
    obtain ⟨own, others⟩ := List.forall_mem_cons.mp fit
    have held : d.lenValue v.1 = .ok d.lenValues[v.1] := dif_pos own
    rw [List.allM, List.all_cons, Vector.getElem?_eq_getElem own]
    show (d.lenValue v.1 >>= fun value => pure (value == v.2)) >>= _ = _
    rw [held]
    show (Except.ok (d.lenValues[v.1] == v.2) >>= _ : Except Fault Bool) =
      .ok ((d.lenValues[v.1] == v.2) && _)
    cases d.lenValues[v.1] == v.2 with
    | true => exact ih others
    | false => rfl

/-! ### Explicit values -/

/-- The type that a descriptor names is in its addendum. -/
theorem addendumType_of_derivedType? (named : d.derivedType? = some ty) :
    d.addendumType = some ty := by
  unfold derivedType? at named
  split at named
  · exact named
  · cases named

/-- The LEN parameters of a type have the given values, in declaration order. -/
def HoldsInOrder (d : Descriptor) (ty : DerivedType) (explicit : List Subscript) : Prop :=
  ∀ (n : Nat) p value, ty.lenParameters[n]? = some p → explicit[n]? = some value →
  p.valueIn d = .ok value

/-- In order, values meet the slots of the parameters that they belong to. -/
theorem mem_zip_lenSlotsOf_iff (accepted : ty.checkLayout = .ok ()) :
    (slot, value) ∈ (lenSlotsOf ty).zip explicit ↔
      ∃ (n : Nat) (p : TypeParameter),
        ty.lenParameters[n]? = some p ∧ p.slot? = some slot ∧ explicit[n]? = some value := by
  simp only [List.mem_iff_getElem?, List.getElem?_zip_eq_some,
    getElem?_lenSlotsOf_eq_some_iff accepted]
  constructor
  · rintro ⟨n, ⟨p, there, same⟩, given⟩
    exact ⟨n, p, there, same, given⟩
  · rintro ⟨n, p, there, same, given⟩
    exact ⟨n, ⟨p, there, same⟩, given⟩

/-- Values are held in order exactly if each slot has the value that it meets. -/
theorem holdsInOrder_iff (accepted : ty.checkLayout = .ok ()) :
    d.HoldsInOrder ty explicit ↔ ∀ v ∈ (lenSlotsOf ty).zip explicit,
    d.lenValues[v.1]? = some v.2 := by
  constructor
  · rintro holds ⟨slot, value⟩ mem
    obtain ⟨n, p, there, same, given⟩ := (mem_zip_lenSlotsOf_iff accepted).mp mem
    exact lenValue_eq_ok_iff.mp
      (TypeParameter.valueIn_of_slot? same d ▸ holds n p value there given)
  · intro holds n p value there given
    obtain ⟨slot, same, _⟩ :=
      DerivedType.exists_slot_of_checkLayout accepted (List.mem_of_getElem? there)
    rw [TypeParameter.valueIn_of_slot? same, lenValue_eq_ok_iff]
    exact holds _ ((mem_zip_lenSlotsOf_iff accepted).mpr ⟨n, p, there, same, given⟩)

/-- A descriptor holds one list of values only. -/
theorem HoldsInOrder.unique (holds : d.HoldsInOrder ty explicit)
    (holds' : d.HoldsInOrder ty explicit') (count : explicit.length = ty.lenParameters.length)
    (count' : explicit'.length = ty.lenParameters.length) :
    explicit = explicit' := by
  refine List.ext_getElem (count.trans count'.symm) fun n lt lt' => ?_
  have there : ty.lenParameters[n]? = some ty.lenParameters[n] :=
    List.getElem?_eq_getElem (count ▸ lt)
  have first := holds n _ _ there (List.getElem?_eq_getElem lt)
  have second := holds' n _ _ there (List.getElem?_eq_getElem lt')
  exact Except.ok.inj (first.symm.trans second)

/-- A descriptor without a type takes no explicit values. -/
theorem applyLenValues_of_unnamed (unnamed : d.derivedType? = none) (explicit : List Subscript) :
    d.applyLenValues explicit = .ok (d, .error .generic) := by
  rw [applyLenValues, unnamed]

/-- Explicit values are refused unless there is one for each LEN parameter. -/
theorem applyLenValues_of_length_ne (named : d.derivedType? = some ty)
    (ne : explicit.length ≠ ty.lenParameters.length) :
    d.applyLenValues explicit = .ok (d, .error .lengthMismatch) := by
  rw [applyLenValues, named]
  exact if_pos ne

/-- As many values as there are LEN parameters are compared or stored. -/
theorem applyLenValues_of_length_eq (named : d.derivedType? = some ty)
    (count : explicit.length = ty.lenParameters.length) :
    d.applyLenValues explicit =
      if d.isAllocated then
        (d.holdsLenValues ((lenSlotsOf ty).zip explicit)).map fun held =>
          (d, if held then .ok () else .error .lengthMismatch)
      else (d.storeLenValues ((lenSlotsOf ty).zip explicit)).map (·, .ok ()) := by
  rw [applyLenValues, named]
  dsimp only
  rw [if_neg (not_not_intro count)]
  split
  · cases d.holdsLenValues ((lenSlotsOf ty).zip explicit) with
    | error fault => rfl
    | ok held => cases held <;> rfl
  · cases d.storeLenValues ((lenSlotsOf ty).zip explicit) <;> rfl

/-- Values of an accepted type are given to slots that a descriptor has. -/
theorem fits_zip_lenSlotsOf (accepted : ty.checkLayout = .ok ()) :
    ∀ v ∈ (lenSlotsOf ty).zip explicit, v.1 < 8 :=
  fun _ mem => slot_lt_of_checkLayout accepted (List.of_mem_zip mem).1

/-- An allocated descriptor must hold explicit values already. -/
theorem applyLenValues_of_allocated (named : d.derivedType? = some ty)
    (accepted : ty.checkLayout = .ok ()) (count : explicit.length = ty.lenParameters.length)
    (allocated : d.isAllocated = true) :
    ∃ outcome, d.applyLenValues explicit = .ok (d, outcome) ∧
    (outcome = .ok () ↔ d.HoldsInOrder ty explicit) := by
  rw [applyLenValues_of_length_eq named count, if_pos allocated,
    holdsLenValues_eq (fits_zip_lenSlotsOf accepted)]
  refine ⟨_, rfl, ?_⟩
  simp [holdsInOrder_iff accepted]

/-- An unallocated descriptor takes explicit values. -/
theorem applyLenValues_of_unallocated (named : d.derivedType? = some ty)
    (accepted : ty.checkLayout = .ok ()) (count : explicit.length = ty.lenParameters.length)
    (unallocated : d.isAllocated = false) :
    d.applyLenValues explicit =
      .ok ({ d with lenValues := putLenValues d.lenValues ((lenSlotsOf ty).zip explicit) },
        .ok ()) := by
  rw [applyLenValues_of_length_eq named count, if_neg (Bool.eq_false_iff.mp unallocated),
    storeLenValues_eq (fits_zip_lenSlotsOf accepted)]
  rfl

/-- Explicit values of an accepted type change the values of LEN parameters at most. -/
theorem exists_withLenValues (accepted : ∀ ty, d.derivedType? = some ty → ty.checkLayout = .ok ())
    (explicit : List Subscript) :
    ∃ d' outcome, d.applyLenValues explicit = .ok (d', outcome) ∧ ∃ lenValues,
    d' = { d with lenValues } := by
  have same : ∃ lenValues, d = { d with lenValues } := ⟨d.lenValues, by cases d; rfl⟩
  cases named : d.derivedType? with
  | none => exact ⟨d, _, applyLenValues_of_unnamed named explicit, same⟩
  | some ty =>
    by_cases count : explicit.length = ty.lenParameters.length
    · cases allocated : d.isAllocated with
      | true =>
        obtain ⟨outcome, ended, _⟩ :=
          applyLenValues_of_allocated named (accepted ty named) count allocated
        exact ⟨d, outcome, ended, same⟩
      | false =>
        exact ⟨_, _, applyLenValues_of_unallocated named (accepted ty named) count allocated, _,
          rfl⟩
    · exact ⟨d, _, applyLenValues_of_length_ne named count, same⟩

/-- Explicit values that are not accepted change nothing. -/
theorem eq_of_applyLenValues_error {e : StatError}
    (failed : d.applyLenValues explicit = .ok (d', .error e)) :
    d' = d := by
  cases named : d.derivedType? with
  | none =>
    rw [applyLenValues_of_unnamed named] at failed
    cases failed
    rfl
  | some ty =>
    by_cases count : explicit.length = ty.lenParameters.length
    · rw [applyLenValues_of_length_eq named count] at failed
      split at failed
      · -- Whatever the comparison says, the descriptor is not written.
        cases held : d.holdsLenValues ((lenSlotsOf ty).zip explicit) with
        | error fault =>
          rw [held] at failed
          cases failed
        | ok same =>
          rw [held] at failed
          exact (congrArg Prod.fst (Except.ok.inj failed)).symm
      · cases stored : d.storeLenValues ((lenSlotsOf ty).zip explicit) <;>
          rw [stored] at failed <;> cases failed
    · rw [applyLenValues_of_length_ne named count] at failed
      cases failed
      rfl

/-! ### Dumps -/

/-- There are as many dimensions as the rank says, but no more than there is room for. -/
theorem length_dimensions (d : Descriptor) : d.dimensions.length = min d.rank.toNat maxRank := by
  simp [dimensions, maxRank]

/-- There is a line for each of the parameters, if there is room for all of them. -/
theorem exists_parameterLines {parameters : List TypeParameter} (room : ∀ p ∈ parameters, p.HasRoom)
    (d : Descriptor) :
    ∃ lines, parameters.mapM (·.dumpLineIn d) = .ok lines ∧
      List.Forall₂ (fun p line => p.dumpLineIn d = .ok line) parameters lines := by
  induction parameters with
  | nil => exact ⟨[], rfl, .nil⟩
  | cons p rest ih =>
    obtain ⟨own, others⟩ := List.forall_mem_cons.mp room
    obtain ⟨value, read⟩ := TypeParameter.exists_valueIn_iff (d := d).mpr own
    obtain ⟨lines, ended, each⟩ := ih others
    obtain ⟨line, shown⟩ : ∃ line, p.dumpLineIn d = .ok line :=
      ⟨_, by rw [TypeParameter.dumpLineIn, read]; rfl⟩
    refine ⟨line :: lines, ?_, .cons shown each⟩
    rw [List.mapM_cons, shown, ended]
    rfl

/-- The addendum of a descriptor is dumped with all parameters of the type that it names, if it
    counts. -/
theorem exists_dumpAddendum (named : d.addendumType = some ty)
    (room : ∀ p ∈ ty.parameters, p.HasRoom) :
    ∃ lines, d.dumpAddendum = .ok lines ∧
      lines.length = if d.hasAddendum then 1 + ty.parameters.length else 0 := by
  unfold dumpAddendum
  cases counts : d.hasAddendum with
  | false => exact ⟨[], rfl, rfl⟩
  | true =>
    obtain ⟨lines, ended, each⟩ := exists_parameterLines room d
    refine ⟨[.plain "  derived type ", .typeName ty.name] :: lines, ?_, ?_⟩
    · rw [named]
      dsimp only
      rw [ended]
      rfl
    · rw [List.length_cons, ← each.length_eq, Nat.add_comm]
      rfl

/-- A descriptor is dumped completely, whatever its rank. -/
theorem exists_dumpLines (named : d.addendumType = some ty)
    (room : ∀ p ∈ ty.parameters, p.HasRoom) :
    ∃ lines, d.dumpLines = .ok lines ∧
      lines.length = 2 + (if d.isFinalizationSuppressed then 1 else 0) + min d.rank.toNat maxRank +
        if d.hasAddendum then 1 + ty.parameters.length else 0 := by
  obtain ⟨addendum, ended, count⟩ := exists_dumpAddendum named room
  unfold dumpLines
  rw [ended]
  refine ⟨_, rfl, ?_⟩
  rw [List.length_append, count, List.length_append, List.length_append, List.length_map,
    List.length_zipIdx, length_dimensions]
  cases d.isFinalizationSuppressed <;> rfl

end Descriptor

/-- Accepted tables never ask for a slot that a descriptor does not have. Of their parameters, the
    first ones are KIND parameters, as many as are counted, and all others are LEN parameters. Each
    one has a value in every descriptor. Explicit values can be applied to every descriptor that
    names the type, and each one has a complete dump. -/
theorem DerivedType.slots_in_range_of_checkLayout {ty : DerivedType}
    (accepted : ty.checkLayout = .ok ()) :
    (∀ (i : Nat) p, ty.parameters[i]? = some p →
      (i < ty.kindParameters.length → p.isKind) ∧ (ty.kindParameters.length ≤ i → p.isLen)) ∧
    ∀ d : Descriptor,
      (∀ p ∈ ty.parameters, ∃ value, p.valueIn d = .ok value) ∧
      (d.addendumType = some ty →
        (∀ explicit, ∃ d' outcome, d.applyLenValues explicit = .ok (d', outcome)) ∧
        ∀ palette, ∃ lines, d.dumpLines = .ok lines ∧
          d.dump palette = .ok (StyledText.renderLines palette lines) ∧
          lines.length = 2 + (if d.isFinalizationSuppressed then 1 else 0) +
            min d.rank.toNat maxRank +
            if d.hasAddendum then 1 + ty.parameters.length else 0) := by
  have room : ∀ p ∈ ty.parameters, p.HasRoom := fun p => hasRoom_of_checkLayout accepted
  refine ⟨fun i p there => ⟨isKind_of_lt there, isLen_of_le accepted there⟩, fun d =>
    ⟨?_, fun named => ⟨?_, ?_⟩⟩⟩
  · exact fun p mem => TypeParameter.exists_valueIn_iff.mpr (room p mem)
  · intro explicit
    have acceptedType : ∀ ty', d.derivedType? = some ty' → ty'.checkLayout = .ok () := by
      intro ty' named'
      cases named.symm.trans (Descriptor.addendumType_of_derivedType? named')
      exact accepted
    obtain ⟨d', outcome, ended, _⟩ := Descriptor.exists_withLenValues acceptedType explicit
    exact ⟨d', outcome, ended⟩
  · intro palette
    obtain ⟨lines, ended, count⟩ := Descriptor.exists_dumpLines named room
    exact ⟨lines, ended, by rw [Descriptor.dump, ended]; rfl, count⟩

/-! ### Matrices -/

namespace Matrices

/-- A matrix of a fixed kind. Its columns come first among the slots. -/
def matrix : DerivedType :=
  { number := 0, name := "matrix",
    parameters :=
      [.kind "k" ⟨.integer, 4⟩ 8, .len "rows" ⟨.integer, 8⟩ 1 1, .len "columns" ⟨.integer, 8⟩ 1 0],
    components := [], procedures := [], image := none, size := 16, isSequence := false,
    isBindC := false : DerivedType }.summarize

/-- Matrices of a rank that there is no room for, in storage that is not to be finalized. -/
def manyMatrices : Descriptor :=
  { Descriptor.zeroed with
    elementSize := 16, typeCode := .derived, rank := 255, flags := 3,
    addendumType := some matrix }

end Matrices

open Matrices in
/-- Matrices of rank 255 are dumped with fifteen dimensions and three parameters, and take explicit
    values. -/
theorem DerivedType.manyMatrices_in_range :
    matrix.checkLayout = .ok () ∧ manyMatrices.rank = 255 ∧
    (∃ lines, manyMatrices.dumpLines = .ok lines ∧ lines.length = 22) ∧
    ∃ d' outcome, manyMatrices.applyLenValues [3, 4] = .ok (d', outcome) := by
  have accepted : matrix.checkLayout = .ok () := by decide
  obtain ⟨_, each⟩ := slots_in_range_of_checkLayout accepted
  obtain ⟨_, operations⟩ := each manyMatrices
  obtain ⟨applied, dumped⟩ := operations rfl
  obtain ⟨lines, ended, _, count⟩ := dumped .plain
  exact ⟨accepted, rfl, ⟨lines, ended, count⟩, applied [3, 4]⟩

end DerivedTypes
