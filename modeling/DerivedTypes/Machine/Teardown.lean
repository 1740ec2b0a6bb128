import DerivedTypes.Machine.TeardownSteps

namespace DerivedTypes

/-!
# Teardown

A teardown runs its steps one after the other (`DerivedType.destroyScalar_eq`). Only the release of
a component reads memory, because only there a descriptor says what comes next: `TeardownStep.run`
follows it, and the storage is freed once its contents are torn down.

Storage owns storage only to a finite depth, so the number of bytes in memory bounds how often a
release leads to another one. `TeardownStep.run` counts that down and gives up on an endless chain
of owners.
-/

/-! ### Storage -/

/-- The largest size of a block of storage: the largest multiple of 16 that a subscript can hold. -/
def maxBlockBytes : Nat := 0x7ffffffffffffff0

/-- The size of the block for so many bytes: no block is empty, and none is larger than the
    largest. -/
def blockSize? (bytes : Nat) : Option Nat :=
  let size := max 1 bytes
  if size ≤ maxBlockBytes then some size else none

/-- The size of the block that a descriptor describes. -/
def Descriptor.blockSize? (d : Descriptor) : Option Nat :=
  d.storageBytes?.bind DerivedTypes.blockSize?

/-- Gives back the block that `d` describes at `data`. Storage of no valid size stays. -/
def Run.freeStorage (d : Descriptor) (data : Address) : Run Unit :=
  match d.blockSize? with
  | some size => do
    log (.freeing size d.typeCode)
    freeBlock data size
  | none => log (.cannotFree d.typeCode)

/-! ### Running the steps -/

/-- Runs one step. A release may lead to at most `depth` others inside it. -/
def TeardownStep.run (env : Environment) : (depth : Nat) → TeardownStep → Run Unit
  | _, finalizeScalar ty procedure entry a => do
    Run.trace env (.finalize ty procedure)
    let _ ← Run.call env procedure entry (.scalar a)
  | _, finalizeArray ty procedure entry view => do
    Run.trace env (.finalize ty procedure)
    let _ ← Run.call env procedure entry (.array view)
  | _, enterComponents ty => Run.trace env (.destroyComponents ty)
  | _, enterParent ty parent => Run.trace env (.enterParent ty parent)
  | _, orphan ty link => Run.fatal (.missingParent ty.name link)
  | depth, release ty component a finalize => do
    match ← Run.readOwner a with
    | none => pure ()
    | some (d, data) =>
      Run.trace env (.release ty component)
      match depth with
      | 0 => Run.undefined .endlessOwnership
      | depth + 1 => d.forArraySteps env.context (run env depth) data finalize
      Run.freeStorage d data
      Run.clearBase a

/-- How many releases may lead to each other: as many as there are bytes in memory. -/
def Run.ownershipDepth : Run Nat := do
  return (← get).memory.byteCount

namespace DerivedType

/-- Tears down the components of the instance at an address, parent excepted. -/
def destroyComponents (env : Environment) (ty : DerivedType) (a : Address) (finalize : Bool) :
    Run Unit := do
  ty.forComponentSteps env.context (TeardownStep.run env (← Run.ownershipDepth)) a finalize

/-- Tears down the instance at an address. -/
def destroyScalar (env : Environment) (ty : DerivedType) (a : Address) (finalize : Bool) :
    Run Unit := do
  ty.forScalarSteps env.context (TeardownStep.run env (← Run.ownershipDepth)) a finalize

/-- To tear down components is to run their steps. -/
theorem destroyComponents_eq (env : Environment) (ty : DerivedType) (a : Address)
    (finalize : Bool) :
    ty.destroyComponents env a finalize = (do
      let depth ← Run.ownershipDepth
      (ty.componentSteps env.context a finalize).forM (TeardownStep.run env depth)) := by
  simp only [destroyComponents, forComponentSteps_eq]

/-- To tear down an instance is to run its steps. -/
theorem destroyScalar_eq (env : Environment) (ty : DerivedType) (a : Address) (finalize : Bool) :
    ty.destroyScalar env a finalize = (do
      let depth ← Run.ownershipDepth
      (ty.scalarSteps env.context a finalize).forM (TeardownStep.run env depth)) := by
  simp only [destroyScalar, forScalarSteps_eq]

end DerivedType

/-- Tears down every described element of storage; null storage has none. -/
def Descriptor.destroyElements (env : Environment) (d : Descriptor) (data : Option Address)
    (finalize : Bool) : Run Unit :=
  match data with
  | none => pure ()
  | some data => do
    d.forArraySteps env.context (TeardownStep.run env (← Run.ownershipDepth)) data finalize

/-- To tear down elements is to run their steps. -/
theorem Descriptor.destroyElements_eq (env : Environment) (d : Descriptor) (data : Address)
    (finalize : Bool) :
    d.destroyElements env (some data) finalize = (do
      let depth ← Run.ownershipDepth
      (d.arraySteps env.context data finalize).forM (TeardownStep.run env depth)) := by
  simp only [destroyElements, forArraySteps_eq]

end DerivedTypes
