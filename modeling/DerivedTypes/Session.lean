import DerivedTypes.Machine.Allocation

namespace DerivedTypes

/-!
# Sessions

A program uses the operations on variables: descriptors of its own, which lie in no region, and
descriptors in memory. A `Session` is a machine with such local descriptors, a `Command` is one use
of an operation, and `Command.run` is what it does.
-/

/-- Where a descriptor is. -/
inductive Place where
  | localVariable (index : Nat)
  | stored (address : Address)
deriving DecidableEq, Repr, Inhabited

/-- A machine and the local descriptors. -/
structure Session where
  machine : Machine
  locals : List Descriptor
deriving Inhabited

/-- A new session: the tables of the program, the given buffers, an empty heap, zeroed local
    descriptors. -/
def Session.start (loader : Loader) (tables : Array DerivedType) (buffers : List (List UInt8))
    (locals : Nat) : Session where
  machine := ⟨.ofBuffers loader tables buffers, #[]⟩
  locals := .replicate locals .zeroed

/-- What a session does. -/
abbrev Dialogue := EStateM Fault Session

namespace Dialogue

/-- Runs an operation on the machine of the session. -/
def onMachine {α : Type} (operation : Run α) : Dialogue α :=
  fun ⟨machine, locals⟩ =>
    match operation machine with
    | .ok a machine => .ok a ⟨machine, locals⟩
    | .error fault machine => .error fault ⟨machine, locals⟩

/-- The descriptor at a place. -/
def read : Place → Dialogue Descriptor
  | .localVariable index => do
    match (← get).locals[index]? with
    | some d => pure d
    | none => throw (.undefined .outsideMemory)
  | .stored a => onMachine (Run.readDescriptor a)

/-- Puts a descriptor into a place. -/
def write (place : Place) (d : Descriptor) : Dialogue Unit :=
  match place with
  | .localVariable index =>
    modify fun s => { s with locals := s.locals.set index d }
  | .stored a => onMachine (Run.writeDescriptor a d)

/-- The descriptor at a place that may be missing. -/
def readOptional : Option Place → Dialogue (Option Descriptor)
  | none => pure none
  | some place => some <$> read place

/-- Changes the descriptor at a place. -/
def update (place : Place) (f : Descriptor → Except Fault Descriptor) : Dialogue Unit := do
  write place (← onMachine (Run.ofExcept (f (← read place))))

/-- Runs an allocation statement on the descriptor at a place. -/
def statement (place : Place) (f : Descriptor → Run (Descriptor × Outcome)) : Dialogue Outcome := do
  let (d, outcome) ← onMachine (f (← read place))
  write place d
  return outcome

end Dialogue

/-- A new value for one field of a descriptor. -/
inductive FieldValue where
  | rank (rank : UInt8)
  | elementSize (size : UInt64)
  | flags (flags : UInt8)
  | attr (attr : Attribute)
  | typeCode (typeCode : TypeCode)
  | addendumType (ty : Option DerivedType)
  | base (base : Option Address)
  | dimension (position : Nat) (dim : Dimension)

/-- Sets one field. A dimension needs a slot. -/
def Descriptor.setField (d : Descriptor) : FieldValue → Except Fault Descriptor
  | .rank rank => .ok { d with rank }
  | .elementSize elementSize => .ok { d with elementSize }
  | .flags flags => .ok { d with flags }
  | .attr attr => .ok { d with attr }
  | .typeCode typeCode => .ok { d with typeCode }
  | .addendumType addendumType => .ok { d with addendumType }
  | .base base => .ok { d with base }
  | .dimension position dim =>
    if h : position < 15 then .ok { d with dimensionSlots := d.dimensionSlots.set position dim }
    else .error .indexOutOfRange

/-- One use of an operation. -/
inductive Command where
  -- Types
  | checkLayout (ty : DerivedType)
  -- Instances
  | setDefault (ty : DerivedType) (address : Address)
  | destroyComponents (ty : DerivedType) (address : Address) (finalize : Bool)
  | destroyScalar (ty : DerivedType) (address : Address) (finalize : Bool)
  | setDefaults (place : Place) (data : Address)
  | destroyElements (place : Place) (data : Option Address) (finalize : Bool)
  -- Allocation statements
  | allocate (place : Place) (lower upper : List Subscript)
  | deallocate (place : Place) (finalize : Bool)
  | applyLenValues (place : Place) (values : List Subscript)
  | stat (outcome : Outcome) (errmsg : Option Place)
  | checkAllocated (place : Place) (errmsg : Option Place)
  -- Descriptors
  | initIntrinsic (place : Place) (typeCode : TypeCode) (rank : Nat)
  | initCharacter (place : Place) (length : UInt64) (kind : UInt8) (rank : Nat)
  | initDerived (place : Place) (ty : DerivedType) (rank : Nat)
  | establishDerived (place : Place) (ty : DerivedType) (base : Option Address)
    (extents : List Subscript) (attr : Attribute)
  | establishIntrinsic (place : Place) (typeCode : TypeCode) (elementSize : UInt64)
    (base : Option Address) (extents : List Subscript) (attr : Attribute)
  | assign (place : Place) (d : Descriptor)
  | copy (place source : Place)
  | setBounds (place : Place) (lower upper : List Subscript)
  | setLenValue (place : Place) (slot : Nat) (value : Subscript)
  | suppressFinalization (place : Place) (suppress : Bool)
  | setField (place : Place) (value : FieldValue)
  -- Bytes
  | writeBytes (address : Address) (bytes : List UInt8)

/-- What a command answers. -/
inductive Answer where
  | done
  | layout (result : Except LayoutError Unit)
  | ended (outcome : Outcome)
  | code (stat : Nat)
deriving Inhabited

open Dialogue in
/-- Does what a command says. -/
def Command.run (env : Environment) : Command → Dialogue Answer
  | checkLayout ty => return .layout (← onMachine (Run.checkLayout ty))
  | setDefault ty a => do
    onMachine (ty.setDefault env a)
    return .done
  | destroyComponents ty a finalize => do
    onMachine (ty.destroyComponents env a finalize)
    return .done
  | destroyScalar ty a finalize => do
    onMachine (ty.destroyScalar env a finalize)
    return .done
  | setDefaults place data => do
    let d ← read place
    onMachine (d.setDefaults env data)
    return .done
  | destroyElements place data finalize => do
    let d ← read place
    onMachine (d.destroyElements env data finalize)
    return .done
  | allocate place lower upper => return .ended (← statement place (·.allocate env lower upper))
  | deallocate place finalize => return .ended (← statement place (·.deallocate env finalize))
  | applyLenValues place values => do
    let outcome ← statement place fun d => Run.ofExcept (d.applyLenValues values)
    return .ended outcome
  | stat outcome errmsg => do
    let errmsg ← readOptional errmsg
    return .code (← onMachine (Outcome.stat outcome errmsg))
  | checkAllocated place errmsg => do
    let d ← read place
    let errmsg ← readOptional errmsg
    return .code (← onMachine (d.checkAllocated errmsg))
  | initIntrinsic place typeCode rank => do
    update place (·.initIntrinsic typeCode rank)
    return .done
  | initCharacter place length kind rank => do
    update place (·.initCharacter length kind rank)
    return .done
  | initDerived place ty rank => do
    update place (·.initDerived ty rank)
    return .done
  | establishDerived place ty base extents attr => do
    update place (·.establishDerived ty base extents attr)
    return .done
  | establishIntrinsic place typeCode elementSize base extents attr => do
    update place (·.establishIntrinsic typeCode elementSize base extents attr)
    return .done
  | assign place d => do
    write place d
    return .done
  | copy place source => do
    write place (← read source)
    return .done
  | setBounds place lower upper => do
    update place (·.setBounds lower upper)
    return .done
  | setLenValue place slot value => do
    update place (·.setLenValue slot value)
    return .done
  | suppressFinalization place suppress => do
    update place fun d => .ok (d.suppressFinalization suppress)
    return .done
  | setField place value => do
    update place (·.setField value)
    return .done
  | writeBytes a bytes => do
    onMachine (Run.writeBytes a bytes)
    return .done

/-- Runs commands in order, up to the first fault. -/
def Command.runAll (env : Environment) (commands : List Command) : Dialogue Unit :=
  commands.forM fun command => do
    let _ ← command.run env

end DerivedTypes
