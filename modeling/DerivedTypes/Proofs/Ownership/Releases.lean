import DerivedTypes.Proofs.Teardown.Levels

namespace DerivedTypes

/-!
# What a teardown releases

The steps of a teardown go level by level: first the components that the type of the elements adds
in each element, then those of its parent in each element, and so on. In another order these are the
descriptors of one element after the other (`released_arraySteps`). No type on the way lacks its
parent (`resolved_arraySteps`).
-/

namespace TeardownStep

/-- The descriptor whose storage a step releases. -/
def slot? : TeardownStep → Option Address
  | release _ _ a _ => some a
  | _ => none

/-- The descriptors whose storage steps release. -/
def released (steps : List TeardownStep) : List Address :=
  steps.filterMap slot?

/-- No steps release nothing. -/
@[simp] theorem released_nil : released [] = [] := rfl

/-- What is released by some steps and then by others. -/
theorem released_append (first second : List TeardownStep) :
    released (first ++ second) = released first ++ released second :=
  List.filterMap_append

/-- What is released by the steps for each item. -/
theorem released_flatMap {α : Type} (items : List α) (steps : α → List TeardownStep) :
    released (items.flatMap steps) = items.flatMap fun x => released (steps x) :=
  List.filterMap_flatMap

end TeardownStep

open TeardownStep

/-! ### Finalizers -/

namespace ArrayFinalizer

variable (finalizer : ArrayFinalizer) (context : ExecutionContext) (ty : DerivedType)

/-- The call for a whole array releases nothing. -/
theorem released_wholeSteps (d : Descriptor) (data : Address) :
    released (finalizer.wholeSteps context ty d data) = [] := by
  cases finalizer with
  | whole p =>
    rw [wholeSteps]
    cases p.code.entry? context <;> rfl
  | none => rfl
  | each p => rfl

/-- The call for an element releases nothing. -/
theorem released_elementSteps (element : Address) :
    released (finalizer.elementSteps context ty element) = [] := by
  cases finalizer with
  | each p =>
    rw [elementSteps]
    cases p.code.entry? context <;> rfl
  | none => rfl
  | whole p => rfl

end ArrayFinalizer

/-! ### Components -/

namespace Component

variable {context : ExecutionContext} {ty : DerivedType} {c : Component} {a : Address}
  {finalize : Bool}

/-- The descriptors in one component of an instance, at any depth. -/
def slots (c : Component) (a : Address) : List Address :=
  (c.parts a).flatMap Part.slots

/-- A descriptor component is the one descriptor in it. -/
theorem slots_of_isDescriptor (slot : c.isDescriptor = true) :
    c.slots a = [a + c.offset.toNat] := by
  rw [slots, parts_of_isDescriptor slot]
  rfl

/-- The descriptors in an embedded component are those of its elements. -/
theorem slots_of_embedded {shape : Descriptor} {nested : DerivedType}
    (embedded : c.embedded? = some (shape, nested)) :
    c.slots a = (shape.elementAddresses (a + c.offset.toNat)).flatMap nested.slots := by
  rw [slots, parts_of_embedded embedded, List.flatMap_map]
  rfl

/-- There are none in other components. -/
theorem slots_of_plain (plain : c.isDescriptor = false) (none : c.embedded? = none) :
    c.slots a = [] := by
  rw [slots, parts_of_plain plain none]
  rfl

end Component

/-! ### Levels -/

namespace DerivedType

variable {ty : DerivedType} {a : Address}

/-- The descriptors in the parent field of an instance, if there is one. -/
def parentSlots (ty : DerivedType) (a : Address) : List Address :=
  if ty.isExtension then
    match ty.parent with
    | .ok parent => parent.slots a
    | .error _ => []
  else []

/-- The descriptors in an instance are those in its components. -/
theorem slots_eq_components (ty : DerivedType) (a : Address) :
    ty.slots a = ty.components.flatMap (·.slots a) := by
  rw [slots_eq, parts, List.flatMap_assoc]
  rfl

/-- The descriptors of the parent are those of the instance as one of that type. -/
theorem parentSlots_of_parent {parent : DerivedType} (extended : ty.isExtension = true)
    (named : ty.parent = .ok parent) : ty.parentSlots = parent.slots :=
  funext fun e => by rw [parentSlots, if_pos extended, named]

/-- The parent field holds one instance of the parent, which begins where the instance begins. -/
theorem parentSlots_eq {c : Component} {shape : Descriptor} {parent : DerivedType}
    (extended : ty.isExtension = true) (offset : c.offset = 0)
    (embedded : c.embedded? = some (shape, parent)) (one : shape.elementCount = 1)
    (named : ty.parent = .ok parent) : ty.parentSlots a = c.slots a := by
  rw [Component.slots_of_embedded embedded, Descriptor.elementAddresses, one,
    parentSlots_of_parent extended named, offset]
  simp

/-- One level of an array releases what the components of its elements release. -/
theorem released_level (context : ExecutionContext) (ty : DerivedType) (d : Descriptor)
    (data : Address) (finalize : Bool) :
    released ((ty.arrayFinalizer d.rank.toNat finalize).wholeSteps context ty d data ++
      (d.elementAddresses data).flatMap fun e =>
        (ty.arrayFinalizer d.rank.toNat finalize).elementSteps context ty e ++
          ty.componentSteps context e finalize) =
      (d.elementAddresses data).flatMap fun e =>
        released (ty.componentSteps context e finalize) := by
  rw [released_append, ArrayFinalizer.released_wholeSteps, List.nil_append, released_flatMap]
  simp only [released_append, ArrayFinalizer.released_elementSteps, List.nil_append]

mutual

/-- The components of an instance release what lies in the instance, but for the parent field. -/
theorem released_componentSteps {ty : DerivedType} (context : ExecutionContext)
    (sound : ty.Throughout TeardownSound) (a : Address) (finalize : Bool) :
    (released (ty.componentSteps context a finalize) ++ ty.parentSlots a).Perm (ty.slots a) := by
  -- A component that is no parent field.
  have each : ∀ c ∈ ty.components, c.isParent = false →
      (released (c.teardownSteps context ty a finalize)).Perm (c.slots a) := by
    intro c mem own
    obtain slot | ⟨shape, nested, embedded⟩ | ⟨plain, none⟩ := c.parts_cases
    · rw [Component.teardownSteps_of_isDescriptor own slot, Component.slots_of_isDescriptor slot]
      exact .refl _
    · have := sizeOf_embedded mem embedded
      rw [Component.teardownSteps_of_embedded own embedded, Component.slots_of_embedded embedded]
      exact released_levelSteps context (sound.of_embedded mem embedded) shape _ _
    · rw [Component.teardownSteps_of_plain plain none, Component.slots_of_plain plain none]
      exact .refl _
  have entered : released (ty.componentSteps context a finalize) =
      ty.components.flatMap fun c => released (c.teardownSteps context ty a finalize) := by
    rw [componentSteps_eq, ← released_flatMap]
    rfl
  rw [entered, slots_eq_components]
  cases extended : ty.isExtension with
  | false =>
    have own := exists_not_parent_of_not_extension extended sound.own.parentFirst
    rw [parentSlots, if_neg (by simp [extended]), List.append_nil]
    exact .flatMap_left _ fun c mem => each c mem (own c mem)
  | true =>
    obtain ⟨c, rest, shape, parent, components, isParent, offset, embedded, one, named⟩ :=
      sound.own.parentFirst.exists_parent extended
    have own : ∀ c ∈ rest, c.isParent = false := fun c mem =>
      sound.own.parentFirst.onlyFirst c (by rw [components]; exact mem)
    -- The parent field comes first in the instance, and the steps leave it to the parent level.
    rw [parentSlots_eq extended offset embedded one named, components, List.flatMap_cons,
      List.flatMap_cons, Component.teardownSteps_of_isParent isParent]
    refine List.perm_append_comm.trans (.append_left _ (.flatMap_left _ fun c mem => ?_))
    exact each c (by rw [components]; exact List.mem_cons_of_mem _ mem) (own c mem)
termination_by 2 * sizeOf ty

/-- All levels of an array together release what lies in its elements. -/
theorem released_levelSteps {ty : DerivedType} (context : ExecutionContext)
    (sound : ty.Throughout TeardownSound) (d : Descriptor) (data : Address) (finalize : Bool) :
    (released (ty.levelSteps context d data finalize)).Perm
      ((d.elementAddresses data).flatMap ty.slots) := by
  -- Each element has its own components and its parent field.
  have elements : ((d.elementAddresses data).flatMap fun e =>
      released (ty.componentSteps context e finalize) ++ ty.parentSlots e).Perm
      ((d.elementAddresses data).flatMap ty.slots) :=
    .flatMap_left _ fun e _ => released_componentSteps context sound e finalize
  cases extended : ty.isExtension with
  | false =>
    rw [levelSteps_of_not_extension extended, released_level]
    simpa [parentSlots, extended] using elements
  | true =>
    obtain ⟨parent, named, inherited⟩ := sound.own.parentFirst.exists_inside extended
    have := sizeOf_parent named
    have above := released_levelSteps context (inherited sound) d data finalize
    rw [parentSlots_of_parent extended named] at elements
    rw [levelSteps_of_parent extended named, released_append, released_level]
    exact (above.append_left _).trans ((List.flatMap_append_perm ..).trans elements)
termination_by 2 * sizeOf ty + 1

end

/-- The call for an instance releases nothing. -/
theorem released_finalizeSteps (context : ExecutionContext) (ty : DerivedType) (a : Address)
    (finalize : Bool) :
    released (ty.finalizeSteps context a finalize) = [] := by
  rw [released, List.filterMap_eq_nil_iff]
  exact forall_mem_finalizeSteps fun _ _ _ _ _ _ => rfl

/-- A teardown of an instance releases the descriptors in it. -/
theorem released_scalarSteps {ty : DerivedType} (context : ExecutionContext)
    (sound : ty.Throughout TeardownSound) (a : Address) (finalize : Bool) :
    (released (ty.scalarSteps context a finalize)).Perm (ty.slots a) := by
  have own := released_componentSteps context sound a finalize
  cases extended : ty.isExtension with
  | false =>
    rw [scalarSteps_of_not_extension extended, released_append, released_finalizeSteps]
    simpa [parentSlots, extended] using own
  | true =>
    obtain ⟨parent, named, inherited⟩ := sound.own.parentFirst.exists_inside extended
    have := sizeOf_parent named
    have above := released_scalarSteps context (inherited sound) a finalize
    rw [parentSlots_of_parent extended named] at own
    rw [scalarSteps_of_parent extended named, released_append, released_append,
      released_finalizeSteps]
    exact (above.append_left _).trans own
termination_by sizeOf ty

end DerivedType

/-! ### Described storage -/

namespace Descriptor

variable {d : Descriptor} {data : Address}

/-- A teardown of described elements releases the descriptors in them, wherever they are. -/
theorem released_arraySteps_withBase (context : ExecutionContext) (typed : d.Typed) (data : Address)
    (finalize : Bool) :
    (released (d.arraySteps context data finalize)).Perm
      ({ d with base := some data } : Descriptor).slots := by
  -- The base does not tell the type of the elements.
  have same : ({ d with base := some data } : Descriptor).derivedType? = d.derivedType? := rfl
  rw [slots_of_base rfl, same, arraySteps]
  cases named : d.derivedType? with
  | none => exact .refl _
  | some ty => exact DerivedType.released_levelSteps context (typed ty named).2 d data _

/-- A teardown of described elements releases the descriptors in them. -/
theorem released_arraySteps (context : ExecutionContext) (typed : d.Typed)
    (base : d.base = some data) (finalize : Bool) :
    (released (d.arraySteps context data finalize)).Perm d.slots := by
  have order := released_arraySteps_withBase context typed data finalize
  rw [← base] at order
  exact order

/-- A teardown of described elements lacks no parent. -/
theorem resolved_arraySteps (context : ExecutionContext) (typed : d.Typed) (data : Address)
    (finalize : Bool) : ∀ step ∈ d.arraySteps context data finalize, step.Resolved := by
  rw [arraySteps]
  cases named : d.derivedType? with
  | none => simp
  | some ty => exact DerivedType.resolved_levelSteps context (typed ty named).2 d data _

end Descriptor

end DerivedTypes
