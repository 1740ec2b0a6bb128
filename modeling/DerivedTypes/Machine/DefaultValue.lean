import DerivedTypes.DerivedType.Summary
import DerivedTypes.Machine.Visit

namespace DerivedTypes

/-!
# Default values

Which steps give an instance its default value depends on its type, the execution context and the
address alone, so the steps are a list (`DerivedType.defaultSteps`), and giving the value is to run
them one after the other (`DerivedType.setDefault_eq`). A default image wins over an initializer,
and an initializer with an entry point for the context wins over the default values of the
components.
-/

/-- One step towards the default value of an instance. -/
inductive DefaultStep where
  /-- Copies the default image, as far as the instance goes. -/
  | copyImage (ty : DerivedType) (image : List UInt8) (address : Address)
  /-- Calls the initializer. -/
  | callInitializer (ty : DerivedType) (procedure : Procedure) (entry : EntryPoint)
      (address : Address)
  /-- Fills the instance with zeros. -/
  | zeroFill (ty : DerivedType) (address : Address)
  /-- Goes on with the embedded elements. -/
  | enterComponents (ty : DerivedType)

namespace DerivedType

/-- The initializer with its entry point for a context. -/
def initializerEntry? (ty : DerivedType) (context : ExecutionContext) :
    Option (Procedure × EntryPoint) :=
  ty.initializer?.bind fun p => (p.code.entry? context).map (p, ·)

/-- The steps that give the instance at an address its default value. -/
def defaultSteps (context : ExecutionContext) (ty : DerivedType) (a : Address) : List DefaultStep :=
  match ty.image with
  | some image => [.copyImage ty image a]
  | none =>
    match ty.initializerEntry? context with
    | some (procedure, entry) => [.callInitializer ty procedure entry a]
    | none =>
      (if ty.isZeroFilled then [.zeroFill ty a] else []) ++
      if ty.isFilledByComponent then
        .enterComponents ty :: ty.components.flatMap fun c =>
          match _h : c.embedded? with
          | none => []
          | some (shape, nested) =>
            if nested.isInitializable then
              (shape.elementAddresses (a + c.offset.toNat)).flatMap (nested.defaultSteps context)
            else []
      else []
termination_by sizeOf ty
decreasing_by exact sizeOf_embedded (by assumption) _h

end DerivedType

/-- The steps that give every described element of storage its default value. Without an
    initializable type there are none. -/
def Descriptor.defaultSteps (context : ExecutionContext) (d : Descriptor) (data : Address) :
    List DefaultStep :=
  match d.derivedType? with
  | none => []
  | some ty =>
    if ty.isInitializable then (d.elementAddresses data).flatMap (ty.defaultSteps context) else []

/-- The steps that give the elements embedded in a component their default value. -/
def Component.defaultSteps (context : ExecutionContext) (c : Component)
    (instanceAddress : Address) :
    List DefaultStep :=
  if c.isDescriptor then []
  else
    match c.static? with
    | none => []
    | some shape => shape.defaultSteps context (instanceAddress + c.offset.toNat)

/-- Without an image or an initializer for the context, an instance is filled with zeros and its
    embedded elements get their default value, as far as its type asks for it. -/
theorem DerivedType.defaultSteps_eq {context : ExecutionContext} {ty : DerivedType} (a : Address)
    (noImage : ty.image = none) (noEntry : ty.initializerEntry? context = none) :
    ty.defaultSteps context a =
      (if ty.isZeroFilled then [.zeroFill ty a] else []) ++
      if ty.isFilledByComponent then
        .enterComponents ty :: ty.components.flatMap (·.defaultSteps context a)
      else [] := by
  rw [DerivedType.defaultSteps]
  simp only [noImage, noEntry, List.flatMap_def]
  congr 4
  apply List.map_congr_left
  intro c _
  unfold Component.defaultSteps Descriptor.defaultSteps
  split
  · next plain => grind [Component.embedded?_eq_none_iff]
  · next embedded => grind [Component.embedded?_eq_some_iff]

/-! ### Going through the steps -/

namespace DerivedType

/-- Does something at every step that gives the instance at an address its default value. -/
def forDefaultSteps (context : ExecutionContext) (f : DefaultStep → Run Unit) (ty : DerivedType)
    (a : Address) : Run Unit :=
  match ty.image with
  | some image => f (.copyImage ty image a)
  | none =>
    match ty.initializerEntry? context with
    | some (procedure, entry) => f (.callInitializer ty procedure entry a)
    | none => do
      (if ty.isZeroFilled then [.zeroFill ty a] else []).forM f
      if ty.isFilledByComponent then
        f (.enterComponents ty)
        ty.components.attach.forM fun ⟨c, _⟩ =>
          match _h : c.embedded? with
          | none => pure ()
          | some (shape, nested) =>
            if nested.isInitializable then
              shape.forElements (a + c.offset.toNat) (nested.forDefaultSteps context f)
            else pure ()
termination_by sizeOf ty
decreasing_by exact sizeOf_embedded (by assumption) _h

/-- Going through the steps is running over their list. -/
theorem forDefaultSteps_eq (context : ExecutionContext) (f : DefaultStep → Run Unit)
    (ty : DerivedType) (a : Address) :
    ty.forDefaultSteps context f a = (ty.defaultSteps context a).forM f := by
  rw [forDefaultSteps, defaultSteps]
  simp only [List.forM_eq_forM]
  split
  · simp
  · split
    · simp
    · -- The steps of the components, with the equation at hand for every nested type.
      rw [List.forM_append]
      congr 1
      funext _
      split
      · rw [List.forM_cons, Run.forM_flatMap]
        congr 1
        funext _
        refine Run.forM_attach_congr fun c mem => ?_
        dsimp only
        split
        · rfl
        · next shape nested embedded =>
          have := sizeOf_embedded mem embedded
          split
          · simp only [Descriptor.forElements_eq, List.forM_eq_forM, Run.forM_flatMap]
            congr 1
            funext element
            rw [forDefaultSteps_eq context f nested element, List.forM_eq_forM]
          · rfl
      · rfl
termination_by sizeOf ty

end DerivedType

namespace DefaultStep

/-- Runs one step. -/
def run (env : Environment) : DefaultStep → Run Unit
  | copyImage ty image a => do
    Run.trace env (.init ty .image)
    Run.writeBytes a (image.take ty.size.toNat)
  | callInitializer ty procedure entry a => do
    Run.trace env (.init ty .procedure)
    let _ ← Run.call env procedure entry (.scalar a)
  | zeroFill ty a => do
    Run.trace env (.init ty .zeroFill)
    Run.fillZero a ty.size.toNat
  | enterComponents ty => Run.trace env (.init ty .components)

end DefaultStep

/-- Gives the instance at an address its default value. -/
def DerivedType.setDefault (env : Environment) (ty : DerivedType) (a : Address) : Run Unit :=
  ty.forDefaultSteps env.context (DefaultStep.run env) a

/-- Gives every described element of storage its default value. -/
def Descriptor.setDefaults (env : Environment) (d : Descriptor) (data : Address) : Run Unit :=
  match d.derivedType? with
  | none => pure ()
  | some ty => if ty.isInitializable then d.forElements data (ty.setDefault env) else pure ()

/-- To give an instance its default value is to run the steps. -/
theorem DerivedType.setDefault_eq (env : Environment) (ty : DerivedType) (a : Address) :
    ty.setDefault env a = (ty.defaultSteps env.context a).forM (DefaultStep.run env) :=
  forDefaultSteps_eq ..

/-- To give elements their default values is to run the steps. -/
theorem Descriptor.setDefaults_eq (env : Environment) (d : Descriptor) (data : Address) :
    d.setDefaults env data = (d.defaultSteps env.context data).forM (DefaultStep.run env) := by
  unfold Descriptor.setDefaults Descriptor.defaultSteps
  split
  · rfl
  · split
    · simp only [forElements_eq, List.forM_eq_forM, Run.forM_flatMap]
      congr 1
      funext element
      rw [DerivedType.setDefault_eq, List.forM_eq_forM]
    · rfl

end DerivedTypes
