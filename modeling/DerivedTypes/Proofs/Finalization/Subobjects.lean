import DerivedTypes.Proofs.Finalization.Elementwise
import DerivedTypes.Proofs.Finalization.OutsideIn
import DerivedTypes.Proofs.Teardown.Idle

namespace DerivedTypes

/-!
# Finalization of all subobjects

Where every type has at most one finalizer, and that one is elemental, a teardown finalizes an
instance and all instances inside it, once each and from the outside in. One instance is finalized
with everything inside it before the next one, and arrays are finalized level by level: the calls
come in different orders, but both are from the outside in.

* `DerivedType.ElementalOnly`: what is asked of the finalizers;
* `DerivedType.outsideIn_levelSteps`, `DerivedType.outsideIn_scalarSteps`: the calls of the steps
  for arrays and for single instances;
* `DerivedType.destroyScalar_finalizes_subobjects`: what a run calls.
-/

open TeardownStep

/-! ### Finalizers of one type -/

namespace DerivedType

/-- A type has at most one finalizer. It is elemental, has code for the context, and leaves memory
    as it is, and no component forbids the finalization of what is embedded in it. -/
structure ElementalOnly (env : Environment) (ty : DerivedType) : Prop where
  elemental : ∀ p ∈ ty.procedures, p.isFinalizer → p.isElementalFinal
  single : (ty.procedures.filter (·.isFinalizer)).length ≤ 1
  code : ∀ p ∈ ty.procedures, p.isFinalizer → ∃ entry, p.code.entry? env.context = some entry ∧
    ∀ argument m, (env.code entry argument m).2 = m
  allowed : ∀ c ∈ ty.components, ∀ shape nested, c.embedded? = some (shape, nested) →
    shape.isFinalizationSuppressed = false

namespace ElementalOnly

variable {env : Environment} {ty : DerivedType}

/-- Either there is no finalizer, or there is one with code for the context. -/
theorem finalizer_cases (h : ty.ElementalOnly env) :
    ty.procedures.filter (·.isFinalizer) = [] ∨
      ∃ p entry, ty.procedures.filter (·.isFinalizer) = [p] ∧
      p.code.entry? env.context = some entry := by
  have single := h.single
  cases finalizers : ty.procedures.filter (·.isFinalizer) with
  | nil => exact .inl rfl
  | cons p rest =>
    rw [finalizers, List.length_cons] at single
    obtain rfl := List.eq_nil_of_length_eq_zero (show rest.length = 0 by omega)
    have mem : p ∈ ty.procedures.filter (·.isFinalizer) := by
      rw [finalizers]
      exact List.mem_cons_self
    obtain ⟨there, role⟩ := List.mem_filter.mp mem
    obtain ⟨entry, code, _⟩ := h.code p there role
    exact .inr ⟨p, entry, rfl, code⟩

/-- A type is finalizable if it has a finalizer. -/
theorem isFinalizable_iff : ty.isFinalizable ↔ ty.procedures.filter (·.isFinalizer) ≠ [] := by
  simp [isFinalizable, List.filter_eq_nil_iff]

/-- All finalizers are elemental ones. -/
theorem filter_isElementalFinal (h : ty.ElementalOnly env) :
    ty.procedures.filter (·.isElementalFinal) = ty.procedures.filter (·.isFinalizer) :=
  List.filter_congr fun p mem => Bool.eq_iff_iff.mpr
    ⟨Procedure.isFinalizer_of_isElementalFinal, h.elemental p mem⟩

/-- Arrays of any rank are finalized like their elements. -/
theorem finalizesElements (h : ty.ElementalOnly env) (rank : Nat) : ty.FinalizesElements rank where
  single := by
    rw [h.filter_isElementalFinal]
    exact h.single
  elemental :=
    fun p mem forRank => h.elemental p mem (Procedure.isFinalizer_of_isFinalForRank forRank)

/-- The call for an instance by the finalizers of its type. -/
theorem finalizerCalls_eq (a : Address) :
    ty.finalizerCalls a = (ty.procedures.filter (·.isFinalizer)).head?.toList.map
      (·, .scalar a) := by
  rw [finalizerCalls, List.head?_filter]

/-- An instance is finalized by the one call for it. -/
theorem filterMap_finalizeSteps (h : ty.ElementalOnly env) (a : Address) :
    (ty.finalizeSteps env.context a true).filterMap call? = ty.finalizerCalls a := by
  rw [finalizerCalls_eq, finalizeSteps, Bool.true_and, h.filter_isElementalFinal]
  rcases h.finalizer_cases with none | ⟨p, entry, one, code⟩
  · simp [isFinalizable_iff, none]
  · simp [isFinalizable_iff, one, code, call?]

/-- An element is finalized by the one call for it. -/
theorem filterMap_elementSteps (h : ty.ElementalOnly env) (rank : Nat) (e : Address) :
    ((ty.arrayFinalizer rank true).elementSteps env.context ty e).filterMap call? =
    ty.finalizerCalls e := by
  rw [(h.finalizesElements rank).elementSteps_eq, h.filterMap_finalizeSteps]

/-- The finalizers of the type keep memory as it is. -/
theorem callsSatisfy_keepsMemory (h : ty.ElementalOnly env) :
    ty.CallsSatisfy env.context (KeepsMemory env) := by
  intro p mem role entry there
  obtain ⟨entry', there', keeps⟩ := h.code p mem role
  obtain rfl := Option.some.inj (there.symm.trans there')
  exact ⟨fun a => keeps (.scalar a), fun view => keeps (.array view)⟩

end ElementalOnly

/-! ### Steps -/

variable {env : Environment} {ty : DerivedType} {a : Address}

/-- The instances inside an instance are those in its components. -/
theorem subobjects_of_not_extension (plain : ty.isExtension = false) (a : Address) :
    ty.subobjects a = ty.components.flatMap (·.subobjects a) := by
  rw [subobjects, base?_of_not_extension plain]
  exact List.append_nil _

/-- An extension has that of the parent as well, after all others. -/
theorem subobjects_of_parent (extended : ty.isExtension = true) {parent : DerivedType}
    (named : ty.parent = .ok parent) (a : Address) :
    ty.subobjects a = ty.components.flatMap (·.subobjects a) ++ [(parent, a)] := by
  rw [subobjects, (parent_eq_ok_iff_base? extended).mp named]
  rfl

mutual

/-- What is embedded in the components of an instance is finalized from the outside in. -/
theorem outsideIn_componentSteps {ty : DerivedType} (sound : ty.Throughout TeardownSound)
    (only : ty.Throughout (ElementalOnly env)) (a : Address) :
    OutsideIn (ty.components.flatMap (·.subobjects a))
      ((ty.componentSteps env.context a true).filterMap call?) := by
  rw [componentSteps_eq, List.filterMap_cons_none rfl, List.filterMap_flatMap]
  refine .flatMap fun c mem => ?_
  by_cases parent : c.isParent
  · rw [Component.teardownSteps_of_isParent parent, Component.subobjects_of_isParent parent]
    exact .nil
  · have own : c.isParent = false := by simpa using parent
    obtain slot | ⟨shape, nested, embedded⟩ | ⟨plain, none⟩ := c.parts_cases
    · have none : c.embedded? = none := Component.embedded?_eq_none_iff.mpr (.inl slot)
      rw [Component.teardownSteps_of_isDescriptor own slot, Component.subobjects_of_none none]
      exact .nil
    · have := sizeOf_embedded mem embedded
      rw [Component.teardownSteps_of_embedded own embedded,
        Component.subobjects_of_embedded own embedded, only.own.allowed c mem shape nested embedded]
      exact outsideIn_levelSteps (sound.of_embedded mem embedded)
        (only.of_embedded mem embedded) shape _
    · rw [Component.teardownSteps_of_plain plain none, Component.subobjects_of_none none]
      exact .nil
termination_by 2 * sizeOf ty

/-- The elements of an array are finalized from the outside in. -/
theorem outsideIn_levelSteps {ty : DerivedType} (sound : ty.Throughout TeardownSound)
    (only : ty.Throughout (ElementalOnly env)) (d : Descriptor) (data : Address) :
    OutsideIn ((d.elementAddresses data).map (ty, ·))
      ((ty.levelSteps env.context d data true).filterMap call?) := by
  have inside := fun e (_ : e ∈ d.elementAddresses data) => outsideIn_componentSteps sound only e
  -- The calls at the level of the type itself.
  have here : ((ty.arrayFinalizer d.rank.toNat true).wholeSteps env.context ty d data ++
      (d.elementAddresses data).flatMap fun e =>
        (ty.arrayFinalizer d.rank.toNat true).elementSteps env.context ty e ++
          ty.componentSteps env.context e true).filterMap call? =
      (d.elementAddresses data).flatMap fun e =>
        ty.finalizerCalls e ++ (ty.componentSteps env.context e true).filterMap call? := by
    rw [(only.own.finalizesElements _).wholeSteps_eq, List.nil_append, List.filterMap_flatMap]
    simp only [List.filterMap_append, only.own.filterMap_elementSteps]
  cases extended : ty.isExtension with
  | false =>
    rw [levelSteps_of_not_extension extended, here, List.map_eq_flatMap]
    refine .flatMap fun e mem => .singleton ?_
    rw [subobjects_of_not_extension extended]
    exact inside e mem
  | true =>
    obtain ⟨parent, named, inherited⟩ := sound.own.parentFirst.exists_inside extended
    have := sizeOf_parent named
    have above := outsideIn_levelSteps (inherited sound) (inherited only) d data
    rw [levelSteps_of_parent extended named, List.filterMap_append, here,
      List.filterMap_cons_none rfl]
    exact .levels (subobjects_of_parent extended named) inside above
termination_by 2 * sizeOf ty + 1

end

/-- An instance and everything inside it is finalized from the outside in. -/
theorem outsideIn_scalarSteps {ty : DerivedType} (sound : ty.Throughout TeardownSound)
    (only : ty.Throughout (ElementalOnly env)) (a : Address) :
    OutsideIn [(ty, a)] ((ty.scalarSteps env.context a true).filterMap call?) := by
  have inside := outsideIn_componentSteps sound only a
  cases extended : ty.isExtension with
  | false =>
    rw [scalarSteps_of_not_extension extended, List.filterMap_append,
      only.own.filterMap_finalizeSteps]
    refine .singleton ?_
    rw [subobjects_of_not_extension extended]
    exact inside
  | true =>
    obtain ⟨parent, named, inherited⟩ := sound.own.parentFirst.exists_inside extended
    have := sizeOf_parent named
    have above := outsideIn_scalarSteps (inherited sound) (inherited only) a
    rw [scalarSteps_of_parent extended named, List.filterMap_append, List.filterMap_append,
      only.own.filterMap_finalizeSteps, List.filterMap_cons_none rfl, List.append_assoc]
    refine .singleton ?_
    rw [subobjects_of_parent extended named]
    exact inside.append above
termination_by sizeOf ty

/-! ### Runs -/

/-- The teardown of an instance that owns no storage calls one finalizer for each pair of a type
    with a finalizer and an address among the instance and all instances inside it. The call for
    each of them comes before all calls for what it holds: the elements embedded in its components,
    and itself as an instance of the types that its type extends. Memory stays as it is. -/
theorem destroyScalar_finalizes_subobjects {M : Machine} (sound : ty.Throughout TeardownSound)
    (only : ty.Throughout (ElementalOnly env)) (room : M.memory.Admits a ty.size.toNat)
    (idle : ∀ s ∈ ty.slots a, M.memory.ownsStorage s = false) :
    ∃ M' calls, ty.destroyScalar env a true M = .ok () M' ∧ M'.memory = M.memory ∧
      M'.calls = M.calls ++ calls ∧
      calls.Perm ((ty.subobjectTree a).flatMap fun x => x.1.finalizerCalls x.2) ∧
      (∀ x ∈ ty.subobjectTree a, ∃ inner, inner.Perm (x.1.innerCalls x.2) ∧
        (x.1.finalizerCalls x.2 ++ inner).Sublist calls) ∧
      OutsideIn [(ty, a)] calls := by
  have laid : ty.Throughout LaidOut := sound.imp fun _ sound => sound.laidOut
  have vacant : ∀ s ∈ ty.slots a, M.memory.Vacant s := fun s mem =>
    .of_spans (spans_of_mem_slots laid room mem) (idle s mem)
  have ordered := outsideIn_scalarSteps sound only a
  have all := ordered.perm
  rw [List.flatMap_singleton] at all
  refine ⟨_, _, destroyScalar_of_idle sound (fun _ => only.imp fun _ only =>
    only.callsSatisfy_keepsMemory)
    vacant, rfl, ?_, all, fun x mem =>
      ordered.exists_sublist (by rwa [List.flatMap_singleton]), ordered⟩
  rw [Machine.calls_recordAll, filterMap_call?_idleEvents]

end DerivedType

/-! ### A bus -/

namespace Bus

/-- An elemental finalizer that the host has code for. -/
def closing (name : String) : Procedure := .elementalFinal name ⟨some ⟨0⟩, none⟩

/-- Eight bytes with a finalizer. -/
def seat : DerivedType :=
  { number := 0, name := "seat", parameters := [], components := [],
    procedures := [closing "clear"],
    image := none, size := 8, isSequence := false, isBindC := false : DerivedType }.summarize

/-- A seat and a descriptor. -/
def car : DerivedType :=
  { number := 1, name := "car", parameters := [],
    components := [.derived "driver" (.row seat 1 8) 0, .descriptor "log" .derived 8],
    procedures := [closing "park"], image := none, size := 464,
      isSequence := false, isBindC := false :
    DerivedType }.summarize

/-- A car with two more seats. -/
def bus : DerivedType :=
  { number := 2, name := "bus", parameters := [],
    components := [.parent "car" (.row car 1 464), .derived "seats" (.row seat 2 8) 464],
    procedures := [closing "empty"], image := none, size := 480,
      isSequence := false, isBindC := false :
    DerivedType }.summarize

/-- Where finalizers do nothing. -/
def environment : Environment := .withoutHeap .host false fun _ argument m => (argument, m)

/-- A buffer of the size of a bus, all zeros. -/
def machine : Machine := ⟨.ofBuffers default #[] [.replicate 480 0], #[]⟩

/-- The types that lie directly in a bus. -/
theorem eq_car_or_seat {c : Component} {inner : DerivedType} (mem : c ∈ bus.components)
    (named : c.derivedType? = some inner) : inner = car ∨ inner = seat := by
  obtain rfl | rfl : c = .parent "car" (.row car 1 464) ∨
      c = .derived "seats" (.row seat 2 8) 464 := by
    simpa [bus] using mem
  · exact .inl (Option.some.inj named).symm
  · exact .inr (Option.some.inj named).symm

/-- A car has seats inside, and nothing else that names a type. -/
theorem eq_seat {c : Component} {inner : DerivedType} (mem : c ∈ car.components)
    (named : c.derivedType? = some inner) : inner = seat := by
  obtain rfl | rfl : c = .derived "driver" (.row seat 1 8) 0 ∨
      c = .descriptor "log" .derived 8 := by
    simpa [car] using mem
  · exact (Option.some.inj named).symm
  · cases named

/-- What holds of the three types holds at all depths. -/
theorem throughout_bus {P : DerivedType → Prop} (onBus : P bus) (onCar : P car) (onSeat : P seat) :
    bus.Throughout P := by
  have seats : seat.Throughout P := .of_plain onSeat (by decide)
  refine .intro onBus fun c mem shape inner embedded => ?_
  rcases eq_car_or_seat mem (Component.derivedType?_of_embedded? embedded) with rfl | rfl
  · refine .intro onCar fun c mem shape inner embedded => ?_
    rw [eq_seat mem (Component.derivedType?_of_embedded? embedded)]
    exact seats
  · exact seats

/-- The three types satisfy what teardown relies on. -/
theorem teardownSound_bus : bus.Throughout DerivedType.TeardownSound := by
  refine throughout_bus ⟨.of_ordered (by decide) (by decide) (by decide), by decide, ?_⟩
    ⟨.of_ordered (by decide) (by decide) (by decide), .of_plain (by decide)⟩
    ⟨.of_ordered (by decide) (by decide) (by decide), .of_plain (by decide)⟩
  intro c first _
  obtain rfl := Option.some.inj first
  exact ⟨rfl, _, car, rfl, by decide⟩

/-- One elemental finalizer, and components that allow it. -/
theorem elementalOnly {ty : DerivedType} {name : String} (own : ty.procedures = [closing name])
    (allowed : ∀ c ∈ ty.components, c.embedded?.all fun x => !x.1.isFinalizationSuppressed) :
    ty.ElementalOnly environment where
  elemental := by
    intro p mem _
    rw [own, List.mem_singleton] at mem
    subst mem
    show ((2 : UInt32).toNat.testBit 1 && (1 : UInt32).toNat.testBit 0) = true
    decide
  single := by
    rw [own]
    exact List.length_filter_le ..
  code := by
    intro p mem _
    rw [own, List.mem_singleton] at mem
    subst mem
    exact ⟨⟨0⟩, rfl, fun _ _ => rfl⟩
  allowed := by
    intro c mem shape nested embedded
    have fine := allowed c mem
    rw [embedded] at fine
    simpa using fine

/-- Each of the three types has one elemental finalizer. -/
theorem elementalOnly_bus : bus.Throughout (DerivedType.ElementalOnly environment) :=
  throughout_bus (elementalOnly rfl (by decide)) (elementalOnly rfl (by decide))
    (elementalOnly rfl (by decide))

/-- A seat holds no descriptor. -/
theorem slots_seat (a : Address) : seat.slots a = [] := by
  rw [DerivedType.slots_eq]
  rfl

/-- A car has one for its log. -/
theorem slots_car (a : Address) : car.slots a = [a + 8] := by
  rw [DerivedType.slots_eq]
  show seat.slots _ ++ ([a + 8] ++ []) = _
  rw [slots_seat]
  rfl

/-- A bus has the one of the car that it extends. -/
theorem slots_bus (a : Address) : bus.slots a = [a + 8] := by
  rw [DerivedType.slots_eq]
  show car.slots (a + 0 + 0 * 464) ++ (seat.slots _ ++ (seat.slots _ ++ [])) = _
  rw [slots_car, slots_seat, slots_seat]
  rfl

/-- There is nothing in a seat. -/
theorem subobjectTree_seat (a : Address) : seat.subobjectTree a = [(seat, a)] := by
  rw [DerivedType.subobjectTree_eq]
  rfl

/-- A car holds the seat of its driver. -/
theorem subobjectTree_car (a : Address) : car.subobjectTree a = [(car, a), (seat, a)] := by
  rw [DerivedType.subobjectTree_eq]
  show _ :: (seat.subobjectTree _ ++ []) = _
  rw [subobjectTree_seat]
  rfl

/-- A bus holds two seats and a car. -/
theorem subobjectTree_bus (a : Address) :
    bus.subobjectTree a = [(bus, a), (seat, a + 464), (seat, a + 472), (car, a), (seat, a)] := by
  rw [DerivedType.subobjectTree_eq]
  show _ :: (seat.subobjectTree _ ++ (seat.subobjectTree _ ++ (car.subobjectTree _ ++ []))) = _
  rw [subobjectTree_seat, subobjectTree_seat, subobjectTree_car]
  rfl

/-- There is room for a bus. -/
theorem admits_bus : machine.memory.Admits ⟨.buffer 0, 0⟩ bus.size.toNat := by
  refine .inr (Memory.spans_iff.mpr ⟨(List.replicate 480 0).toArray, rfl, ?_⟩)
  rw [List.size_toArray, List.length_replicate]
  decide

/-- No descriptor in the bus owns storage. -/
theorem idle_bus : ∀ s ∈ bus.slots ⟨.buffer 0, 0⟩, machine.memory.ownsStorage s = false := by
  intro s mem
  rw [slots_bus, List.mem_singleton] at mem
  subst mem
  have kind : machine.memory.byte? ⟨.buffer 0, 27⟩ = some 0 := by
    show (List.replicate 480 (0 : UInt8)).toArray[27]? = some 0
    rw [List.getElem?_toArray, List.getElem?_replicate, if_pos (by decide)]
  show (machine.memory.byte? ⟨.buffer 0, 27⟩ == _ && _) = false
  rw [kind]
  rfl

end Bus

namespace DerivedType

/-- A bus, its two seats, the same bus as a car, and the seat of the driver. -/
theorem destroyScalar_bus : ∃ M' calls,
    Bus.bus.destroyScalar Bus.environment ⟨.buffer 0, 0⟩ true Bus.machine = .ok () M' ∧
    M'.calls = Bus.machine.calls ++ calls ∧
    calls.Perm [(Bus.closing "empty", .scalar ⟨.buffer 0, 0⟩),
      (Bus.closing "clear", .scalar ⟨.buffer 0, 464⟩),
      (Bus.closing "clear", .scalar ⟨.buffer 0, 472⟩), (Bus.closing "park", .scalar ⟨.buffer 0, 0⟩),
      (Bus.closing "clear", .scalar ⟨.buffer 0, 0⟩)] ∧
    ∀ x ∈ Bus.bus.subobjectTree ⟨.buffer 0, 0⟩, ∃ inner, inner.Perm (x.1.innerCalls x.2) ∧
      (x.1.finalizerCalls x.2 ++ inner).Sublist calls := by
  obtain ⟨M', calls, run, _, called, perm, order, _⟩ :=
    destroyScalar_finalizes_subobjects Bus.teardownSound_bus
    Bus.elementalOnly_bus Bus.admits_bus Bus.idle_bus
  refine ⟨M', calls, run, called, ?_, order⟩
  rw [Bus.subobjectTree_bus] at perm
  exact perm

end DerivedType

end DerivedTypes
