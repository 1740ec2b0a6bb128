import DerivedTypes.Machine.Allocator
import DerivedTypes.Memory.Descriptor

namespace DerivedTypes

/-!
# Operations

Operations run on a machine: memory, and the events so far. What they depend on besides is an
`Environment`: the allocator, where procedures run, what they do, and whether the steps of
operations are recorded.

`Run` is the type of an operation. A fault keeps the machine as it was left.
-/

/-- What the operations find around them. -/
structure Environment extends Allocator where
  context : ExecutionContext
  /-- Whether the steps of operations are recorded. -/
  traces : Bool
  /-- What the code at an entry point makes of its argument and of memory. -/
  code : EntryPoint → Argument → Memory → Argument × Memory

/-- An operation on the machine. -/
abbrev Run := EStateM Fault Machine

namespace Run

/-- Records an event. -/
def emit (event : Event) : Run Unit :=
  modify fun m => { m with events := m.events.push event }

/-- Records a step, if steps are recorded. -/
def trace (env : Environment) (step : Trace) : Run Unit :=
  if env.traces then emit (.trace step) else pure ()

/-- Records a log record. -/
def log (record : LogRecord) : Run Unit :=
  emit (.log record)

/-- Gives up because of undefined behaviour. -/
def undefined {α : Type} (cause : Undefined) : Run α :=
  throw (.undefined cause)

/-- Reports a fatal error and gives up. -/
def fatal {α : Type} (error : FatalError) : Run α := do
  log (.fatal error.report)
  throw (.fatal error)

/-- The result of a computation that may fault; a fatal error is reported. -/
def ofExcept {α : Type} : Except Fault α → Run α
  | .ok a => pure a
  | .error (.fatal error) => fatal error
  | .error fault => throw fault

/-- Changes the `n` bytes from an address on, which must all lie in one live region. A change of no
    bytes is allowed at any address. -/
def store (a : Address) (n : Nat) (change : Memory → Memory) : Run Unit :=
  fun machine =>
    if n == 0 || machine.memory.spans a n then
      match machine with
      | ⟨memory, events⟩ => .ok () ⟨change memory, events⟩
    else .error (.undefined .outsideMemory) machine

/-- Stores bytes from an address on. -/
def writeBytes (a : Address) (bytes : List UInt8) : Run Unit :=
  store a bytes.length (·.write a bytes)

/-- Stores `n` zeros from an address on. -/
def fillZero (a : Address) (n : Nat) : Run Unit :=
  store a n (·.fillZero a n)

/-- The descriptor at an address. -/
def readDescriptor (a : Address) : Run Descriptor := do
  let memory := (← get).memory
  if !memory.spans a descriptorBytes then undefined .outsideMemory
  else
    match memory.descriptor? a with
    | some d => pure d
    | none => undefined .notDescriptor

/-- The descriptor at an address with the storage that it owns, if it owns any. -/
def readOwner (a : Address) : Run (Option (Descriptor × Address)) := do
  let memory := (← get).memory
  if !memory.spans a Memory.ownershipBytes then undefined .outsideMemory
  else if !memory.ownsStorage a then return none
  else
    let d ← readDescriptor a
    return d.base.map (d, ·)

/-- Stores a descriptor at an address. -/
def writeDescriptor (a : Address) (d : Descriptor) : Run Unit :=
  store a descriptorBytes (·.writeDescriptor a d)

/-- Sets the base address of the descriptor at an address to null. -/
def clearBase (a : Address) : Run Unit :=
  store a 8 (·.clearBase a)

/-- Calls a procedure at its entry point. What it leaves in its argument is returned. -/
def call (env : Environment) (p : Procedure) (entry : EntryPoint) (argument : Argument) :
    Run Argument := do
  emit (.call p env.context argument)
  modifyGet fun ⟨memory, events⟩ =>
    let (argument, memory) := env.code entry argument memory
    (argument, ⟨memory, events⟩)

/-- Asks the allocator for a zeroed block: its number, unless the request is refused. -/
def requestBlock (env : Environment) (size : Nat) : Run (Option Nat) := do
  let machine ← get
  if env.grants machine size then
    let place := env.place machine size
    let block ← modifyGet fun ⟨memory, events⟩ =>
      let (block, memory) := memory.allocate size place
      (block, ⟨memory, events⟩)
    emit (.allocated block size)
    return some block
  else
    emit (.allocationRefused size)
    return none

/-- Gives a block back to the allocator, as one of the given size: the allocator takes that for
    granted. -/
def freeBlock (a : Address) (size : Nat) : Run Unit := do
  match (← get).memory.blockAt? a with
  | some block =>
    modify fun m => { m with memory := m.memory.release block }
    emit (.freed block size)
  | none => undefined .notBlock

/-- Checks a table against the size that it declares, and logs a violation. -/
def checkLayout (ty : DerivedType) : Run (Except LayoutError Unit) := do
  let result := ty.checkLayout
  if let .error e := result then log (.layoutCheckFailed e)
  return result

end Run

end DerivedTypes
