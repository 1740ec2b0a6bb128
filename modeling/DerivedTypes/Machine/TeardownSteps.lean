import DerivedTypes.DerivedType.Lineage
import DerivedTypes.Machine.Visit

namespace DerivedTypes

/-!
# Steps of a teardown

Tearing down an instance finalizes it, releases the storage that its allocatable components own, and
goes on with the data of its parent type. What to visit is known from the tables alone, so the
visits are a list of steps: `DerivedType.scalarSteps` for one instance, `Descriptor.arraySteps` for
all elements of an array, level by level. `DerivedType.forScalarSteps` and
`Descriptor.forArraySteps` go through the steps without a list of them (`forScalarSteps_eq`,
`forArraySteps_eq`).
-/

/-! ### Finalizers of an array -/

/-- How the elements of an array are finalized at one level of its type. -/
inductive ArrayFinalizer where
  /-- Not at all. -/
  | none
  /-- One call receives the whole array. -/
  | whole (procedure : Procedure)
  /-- One call per element. -/
  | each (procedure : Procedure)

/-- Looks through procedures in table order. The first one for the rank takes the whole array;
    elemental ones are only remembered, the last of them as `elemental`, and used when no other
    comes. -/
def ArrayFinalizer.select (rank : Nat) (elemental : Option Procedure) :
    List Procedure → ArrayFinalizer
  | [] =>
    match elemental with
    | .none => none
    | some p => each p
  | p :: rest =>
    if p.isElementalFinal then select rank (some p) rest
    else if p.isFinalForRank rank then whole p
    else select rank elemental rest

/-! ### Steps -/

/-- One step of a teardown. -/
inductive TeardownStep where
  /-- Calls a finalizer on one instance. -/
  | finalizeScalar (ty : DerivedType) (procedure : Procedure) (entry : EntryPoint)
      (address : Address)
  /-- Calls a finalizer on a whole array. -/
  | finalizeArray (ty : DerivedType) (procedure : Procedure) (entry : EntryPoint)
      (view : Descriptor)
  /-- Goes on with the components of an instance. -/
  | enterComponents (ty : DerivedType)
  /-- Releases the storage of the descriptor component at an address, if it owns any. -/
  | release (ty : DerivedType) (component : Component) (address : Address) (finalize : Bool)
  /-- Goes on with the data of the parent type. -/
  | enterParent (ty parent : DerivedType)
  /-- The parent type is missing. -/
  | orphan (ty : DerivedType) (link : MissingLink)

namespace ArrayFinalizer

/-- The call that finalizes a whole array at the level of `ty`, if there is one. -/
def wholeSteps (context : ExecutionContext) (ty : DerivedType) (d : Descriptor) (data : Address) :
    ArrayFinalizer → List TeardownStep
  | whole p =>
    ((p.code.entry? context).map (.finalizeArray ty p · { d with base := some data })).toList
  | _ => []

/-- The call that finalizes one element of an array at the level of `ty`, if there is one. -/
def elementSteps (context : ExecutionContext) (ty : DerivedType) (element : Address) :
    ArrayFinalizer → List TeardownStep
  | each p => ((p.code.entry? context).map (.finalizeScalar ty p · element)).toList
  | _ => []

end ArrayFinalizer

namespace DerivedType

/-- How an array of the type with a given rank is finalized at the level of the type, if at all. -/
def arrayFinalizer (ty : DerivedType) (rank : Nat) (finalize : Bool) : ArrayFinalizer :=
  if finalize && ty.isFinalizable then .select rank none ty.procedures else .none

/-- Calls of the elemental finalizers of a type on one instance, in table order. -/
def finalizeSteps (context : ExecutionContext) (ty : DerivedType) (a : Address) (finalize : Bool) :
    List TeardownStep :=
  if finalize && ty.isFinalizable then
    (ty.procedures.filter (·.isElementalFinal)).filterMap fun p =>
      (p.code.entry? context).map (.finalizeScalar ty p · a)
  else []

mutual

/-- The steps that tear down every component of the instance at an address, parent excepted. -/
def componentSteps (context : ExecutionContext) (ty : DerivedType) (a : Address) (finalize : Bool) :
    List TeardownStep :=
  .enterComponents ty :: ty.components.flatMap fun c =>
    if c.isParent then []
    else if c.isDescriptor then [.release ty c (a + c.offset.toNat) finalize]
    else
      match _h : c.embedded? with
      | none => []
      | some (shape, nested) =>
        levelSteps context nested shape (a + c.offset.toNat)
          (finalize && !shape.isFinalizationSuppressed)
termination_by 2 * sizeOf ty
decreasing_by
  have := sizeOf_embedded (by assumption) _h
  omega

/-- The steps that tear down the elements of an array as instances of one type in the lineage of
    their own type, and then as instances of its parent. -/
def levelSteps (context : ExecutionContext) (ty : DerivedType) (d : Descriptor) (data : Address)
    (finalize : Bool) : List TeardownStep :=
  let finalizer := ty.arrayFinalizer d.rank.toNat finalize
  finalizer.wholeSteps context ty d data ++
  ((d.elementAddresses data).flatMap fun element =>
    finalizer.elementSteps context ty element ++ componentSteps context ty element finalize) ++
  if ty.isExtension then
    match _h : ty.parent with
    | .ok parent => .enterParent ty parent :: levelSteps context parent d data finalize
    | .error link => [.orphan ty link]
  else []
termination_by 2 * sizeOf ty + 1
decreasing_by
  · omega
  · have := sizeOf_parent _h
    omega

end

/-- The steps that tear down the instance at an address, the most derived type first. -/
def scalarSteps (context : ExecutionContext) (ty : DerivedType) (a : Address) (finalize : Bool) :
    List TeardownStep :=
  finalizeSteps context ty a finalize ++
  componentSteps context ty a finalize ++
  if ty.isExtension then
    match _h : ty.parent with
    | .ok parent => .enterParent ty parent :: scalarSteps context parent a finalize
    | .error link => [.orphan ty link]
  else []
termination_by sizeOf ty
decreasing_by exact sizeOf_parent _h

end DerivedType

/-- The steps that tear down every described element of storage. A descriptor without a type has
    nothing to tear down, and one that forbids finalization does so for all that its elements
    hold. -/
def Descriptor.arraySteps (context : ExecutionContext) (d : Descriptor) (data : Address)
    (finalize : Bool) : List TeardownStep :=
  match d.derivedType? with
  | none => []
  | some ty => ty.levelSteps context d data (finalize && !d.isFinalizationSuppressed)

/-- The steps that tear down one component of an instance of `ty`: none for a parent field, the
    release of storage elsewhere for a descriptor, and otherwise those of the embedded elements. -/
def Component.teardownSteps (context : ExecutionContext) (ty : DerivedType) (c : Component)
    (instanceAddress : Address) (finalize : Bool) : List TeardownStep :=
  if c.isParent then []
  else if c.isDescriptor then [.release ty c (instanceAddress + c.offset.toNat) finalize]
  else
    match c.static? with
    | none => []
    | some shape => shape.arraySteps context (instanceAddress + c.offset.toNat) finalize

/-- The components of an instance are torn down in table order. -/
theorem DerivedType.componentSteps_eq (context : ExecutionContext) (ty : DerivedType) (a : Address)
    (finalize : Bool) :
    ty.componentSteps context a finalize =
      .enterComponents ty :: ty.components.flatMap (·.teardownSteps context ty a finalize) := by
  rw [DerivedType.componentSteps]
  simp only [List.flatMap_def]
  congr 2
  apply List.map_congr_left
  intro c _
  unfold Component.teardownSteps Descriptor.arraySteps
  split
  · rfl
  · split
    · rfl
    · split
      · next plain => grind [Component.embedded?_eq_none_iff]
      · next embedded => grind [Component.embedded?_eq_some_iff]

/-! ### Going through the steps -/

namespace DerivedType

mutual

/-- Does something at every step that tears down the components of the instance at an address,
    parent excepted. -/
def forComponentSteps (context : ExecutionContext) (f : TeardownStep → Run Unit) (ty : DerivedType)
    (a : Address) (finalize : Bool) : Run Unit := do
  f (.enterComponents ty)
  ty.components.attach.forM fun ⟨c, _⟩ =>
    if c.isParent then pure ()
    else if c.isDescriptor then f (.release ty c (a + c.offset.toNat) finalize)
    else
      match _h : c.embedded? with
      | none => pure ()
      | some (shape, nested) =>
        forLevelSteps context f nested shape (a + c.offset.toNat)
          (finalize && !shape.isFinalizationSuppressed)
termination_by 2 * sizeOf ty
decreasing_by
  have := sizeOf_embedded (by assumption) _h
  omega

/-- Does something at every step that tears down the elements of an array as instances of a type and
    of the types that it extends. -/
def forLevelSteps (context : ExecutionContext) (f : TeardownStep → Run Unit) (ty : DerivedType)
    (d : Descriptor) (data : Address) (finalize : Bool) : Run Unit := do
  let finalizer := ty.arrayFinalizer d.rank.toNat finalize
  (finalizer.wholeSteps context ty d data).forM f
  d.forElements data fun element => do
    (finalizer.elementSteps context ty element).forM f
    forComponentSteps context f ty element finalize
  if ty.isExtension then
    match _h : ty.parent with
    | .ok parent =>
      f (.enterParent ty parent)
      forLevelSteps context f parent d data finalize
    | .error link => f (.orphan ty link)
termination_by 2 * sizeOf ty + 1
decreasing_by
  · omega
  · have := sizeOf_parent _h
    omega

end

/-- Does something at every step that tears down the instance at an address. -/
def forScalarSteps (context : ExecutionContext) (f : TeardownStep → Run Unit) (ty : DerivedType)
    (a : Address) (finalize : Bool) : Run Unit := do
  (finalizeSteps context ty a finalize).forM f
  forComponentSteps context f ty a finalize
  if ty.isExtension then
    match _h : ty.parent with
    | .ok parent =>
      f (.enterParent ty parent)
      forScalarSteps context f parent a finalize
    | .error link => f (.orphan ty link)
termination_by sizeOf ty
decreasing_by exact sizeOf_parent _h

end DerivedType

namespace DerivedType

mutual

/-- Going through the steps of components is running over their list. -/
theorem forComponentSteps_eq (context : ExecutionContext) (f : TeardownStep → Run Unit)
    (ty : DerivedType) (a : Address) (finalize : Bool) :
    ty.forComponentSteps context f a finalize = (ty.componentSteps context a finalize).forM f := by
  rw [forComponentSteps, componentSteps]
  simp only [List.forM_eq_forM]
  rw [List.forM_cons, Run.forM_flatMap]
  congr 1
  funext _
  refine Run.forM_attach_congr fun c mem => ?_
  dsimp only
  split
  · rfl
  · split
    · simp
    · split
      · rfl
      · next shape nested embedded =>
        have := sizeOf_embedded mem embedded
        rw [forLevelSteps_eq context f nested, List.forM_eq_forM]
termination_by 2 * sizeOf ty

/-- Going through the steps of a level is running over their list. -/
theorem forLevelSteps_eq (context : ExecutionContext) (f : TeardownStep → Run Unit)
    (ty : DerivedType) (d : Descriptor) (data : Address) (finalize : Bool) :
    ty.forLevelSteps context f d data finalize =
    (ty.levelSteps context d data finalize).forM f := by
  rw [forLevelSteps, levelSteps]
  simp only [List.forM_eq_forM, Descriptor.forElements_eq, List.forM_append, Run.forM_flatMap,
    forComponentSteps_eq context f ty, bind_assoc]
  congr 2
  funext _
  congr 1
  funext _
  split
  · split
    · next parent extended =>
      have := sizeOf_parent extended
      rw [List.forM_cons, forLevelSteps_eq context f parent, List.forM_eq_forM]
    · simp
  · rfl
termination_by 2 * sizeOf ty + 1

end

/-- Going through the steps of an instance is running over their list. -/
theorem forScalarSteps_eq (context : ExecutionContext) (f : TeardownStep → Run Unit)
    (ty : DerivedType) (a : Address) (finalize : Bool) :
    ty.forScalarSteps context f a finalize = (ty.scalarSteps context a finalize).forM f := by
  rw [forScalarSteps, scalarSteps]
  simp only [List.forM_eq_forM, List.forM_append, forComponentSteps_eq, bind_assoc]
  congr 1
  funext _
  congr 1
  funext _
  split
  · split
    · next parent extended =>
      have := sizeOf_parent extended
      rw [List.forM_cons, forScalarSteps_eq context f parent, List.forM_eq_forM]
    · simp
  · rfl
termination_by sizeOf ty

end DerivedType

/-- Does something at every step that tears down the described elements of storage. -/
def Descriptor.forArraySteps (context : ExecutionContext) (f : TeardownStep → Run Unit)
    (d : Descriptor) (data : Address) (finalize : Bool) : Run Unit :=
  match d.derivedType? with
  | none => pure ()
  | some ty => ty.forLevelSteps context f d data (finalize && !d.isFinalizationSuppressed)

/-- Going through the steps of an array is running over their list. -/
theorem Descriptor.forArraySteps_eq (context : ExecutionContext) (f : TeardownStep → Run Unit)
    (d : Descriptor) (data : Address) (finalize : Bool) :
    d.forArraySteps context f data finalize = (d.arraySteps context data finalize).forM f := by
  unfold Descriptor.forArraySteps Descriptor.arraySteps
  split
  · rfl
  · exact DerivedType.forLevelSteps_eq ..

end DerivedTypes
