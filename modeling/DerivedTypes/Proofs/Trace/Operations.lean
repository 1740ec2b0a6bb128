import DerivedTypes.Proofs.DefaultValue.PlainRecursion
import DerivedTypes.Proofs.Teardown.Origins

namespace DerivedTypes

/-!
# Operations on the life of storage

`LifecycleOperation` lists what is done with instances and storage between their beginning and their
end. All of these operations are made of the same steps, so a law of what operations record holds of
all of them if it holds of the steps: `LifecycleOperation.obeys_run`.
-/

/-- What is done with instances of derived types and with their storage. -/
inductive LifecycleOperation where
  /-- An instance gets its default value. -/
  | setDefault (ty : DerivedType) (a : Address)
  /-- Described elements get their default values. -/
  | setDefaults (d : Descriptor) (data : Address)
  /-- The components of an instance are torn down, parent excepted. -/
  | destroyComponents (ty : DerivedType) (a : Address) (finalize : Bool)
  /-- An instance is torn down. -/
  | destroyScalar (ty : DerivedType) (a : Address) (finalize : Bool)
  /-- Described elements are torn down. -/
  | destroyElements (d : Descriptor) (data : Option Address) (finalize : Bool)
  /-- An allocatable gets storage. -/
  | allocate (d : Descriptor) (lower upper : List Subscript)
  /-- The storage of an allocatable is torn down and freed. -/
  | deallocate (d : Descriptor) (finalize : Bool)

namespace LifecycleOperation

/-- Runs an operation. -/
def run (env : Environment) : LifecycleOperation → Run Unit
  | setDefault ty a => ty.setDefault env a
  | setDefaults d data => d.setDefaults env data
  | destroyComponents ty a finalize => ty.destroyComponents env a finalize
  | destroyScalar ty a finalize => ty.destroyScalar env a finalize
  | destroyElements d data finalize => d.destroyElements env data finalize
  | allocate d lower upper => do let _ ← d.allocate env lower upper
  | deallocate d finalize => do let _ ← d.deallocate env finalize

/-- The operation gives default values, and tears nothing down. -/
def isInitialization : LifecycleOperation → Bool
  | setDefault .. | setDefaults .. | allocate .. => true
  | destroyComponents .. | destroyScalar .. | destroyElements .. | deallocate .. => false

end LifecycleOperation

/-! ### Laws of default values -/

section

variable {env : Environment} {L : Run.Law}
  (steps : ∀ ty a step, DefaultStep.Own env.context ty a step → (step.run env).Obeys L)
include steps

/-- Default initialization obeys a law if the steps do that types ask for. -/
theorem DerivedType.obeys_setDefault (ty : DerivedType) (a : Address) :
    (ty.setDefault env a).Obeys L := by
  rw [setDefault_eq]
  refine .forM fun step mem => ?_
  obtain ⟨inner, b, -, own⟩ :=
    exists_own_of_mem_defaultSteps (P := fun _ _ => True) (fun _ _ _ _ _ _ => trivial) trivial
      step mem
  exact steps inner b step own

/-- Default initialization of elements obeys a law if the steps do that types ask for. -/
theorem Descriptor.obeys_setDefaults (d : Descriptor) (data : Address) :
    (d.setDefaults env data).Obeys L := by
  cases named : d.derivedType? with
  | none =>
    rw [setDefaults, named]
    exact .pure ()
  | some ty =>
    rw [setDefaults_eq_forM env named]
    exact .forM fun e _ => ty.obeys_setDefault steps e

/-- An allocation obeys a law if the steps do that types ask for, and the law allows to ask for a
    block. -/
theorem Descriptor.obeys_allocate (logs : ∀ entry, L.Allows (.log entry))
    (grants : ∀ block size, L.Allows (.allocated block size))
    (refusals : ∀ size, L.Allows (.allocationRefused size)) (d : Descriptor)
    (lower upper : List Subscript) : (d.allocate env lower upper).Obeys L := by
  unfold allocate
  split
  · exact .pure _
  · next size _ =>
    refine (Run.Obeys.ofExcept _ logs).bind fun d => ?_
    refine (Run.Obeys.requestBlock env (fun block => grants block size) (refusals size)).bind
      fun granted => ?_
    cases granted with
    | none => exact .pure _
    | some block =>
      exact (Run.Obeys.log (logs _)).bind fun _ =>
        (obeys_setDefaults steps _ _).bind fun _ => .pure _

end

/-- A default step obeys a law that allows its events. -/
theorem DefaultStep.obeys_run {L : Run.Law} (env : Environment)
    (traces : ∀ ty rule, L.Allows (.trace (.init ty rule)))
    (calls : ∀ p argument, L.Allows (.call p env.context argument)) (step : DefaultStep) :
    (step.run env).Obeys L := by
  cases step with
  | copyImage ty image a =>
    exact (Run.Obeys.trace env (traces ty .image)).bind fun _ => .store _ _ _
  | callInitializer ty p entry a =>
    exact (Run.Obeys.trace env (traces ty .procedure)).bind fun _ => .call env p entry (calls p _)
  | zeroFill ty a => exact (Run.Obeys.trace env (traces ty .zeroFill)).bind fun _ => .store _ _ _
  | enterComponents ty => exact .trace env (traces ty .components)

/-! ### Laws of all operations -/

namespace LifecycleOperation

variable {env : Environment} {L : Run.Law}

/-- An operation obeys a law if all steps do, and the law allows what else is recorded. -/
theorem obeys_run
    (defaults : ∀ ty a step, DefaultStep.Own env.context ty a step → (step.run env).Obeys L)
    (teardown : ∀ step : TeardownStep, step.Arises env.context true → ∀ depth,
      (step.run env depth).Obeys L)
    (logs : ∀ entry, L.Allows (.log entry))
    (grants : ∀ block size, L.Allows (.allocated block size))
    (refusals : ∀ size, L.Allows (.allocationRefused size))
    (frees : ∀ block size, L.Allows (.freed block size)) (op : LifecycleOperation) :
    (op.run env).Obeys L := by
  have steps {finalize : Bool} (step : TeardownStep) (arises : step.Arises env.context finalize)
      (depth : Nat) :
      (step.run env depth).Obeys L := teardown step (arises.mono fun _ => rfl) depth
  cases op with
  | setDefault ty a => exact ty.obeys_setDefault defaults a
  | setDefaults d data => exact d.obeys_setDefaults defaults data
  | destroyComponents ty a finalize => exact ty.obeys_destroyComponents steps a
  | destroyScalar ty a finalize => exact ty.obeys_destroyScalar steps a
  | destroyElements d data finalize => exact d.obeys_destroyElements steps data
  | allocate d lower upper =>
    exact (d.obeys_allocate defaults logs grants refusals lower upper).bind fun _ => .pure ()
  | deallocate d finalize => exact (d.obeys_deallocate steps logs frees).bind fun _ => .pure ()

end LifecycleOperation

end DerivedTypes
