import DerivedTypes.Machine.DefaultValue
import DerivedTypes.Machine.Teardown
import DerivedTypes.StatError

namespace DerivedTypes

/-!
# Allocation statements

ALLOCATE and DEALLOCATE on a descriptor, explicit LEN values, and the STAT and ERRMSG variables of a
statement. A statement that fails has a `StatError` as its result; that is no fault.
-/

/-- How an allocation statement ended. -/
abbrev Outcome := Except StatError Unit

namespace Descriptor

/-! ### ALLOCATE and DEALLOCATE -/

/-- Why storage cannot be allocated to a descriptor with the given bounds, or the size of the
    block. -/
def allocationSize (d : Descriptor) (lower upper : List Subscript) : Except StatError Nat :=
  if !d.isAllocatable then .error .notAllocatable
  else if d.isAllocated then .error .alreadyAllocated
  else if lower.length ≠ d.rank.toNat ∨ upper.length ≠ d.rank.toNat then
    .error (.rankMismatch d.rank.toNat lower.length upper.length)
  else
    match (d.boundsBytes? lower upper).bind DerivedTypes.blockSize? with
    | none => .error .outOfMemory
    | some size => .ok size

/-- Sets the bounds of an allocatable, gives it zeroed storage and gives the elements their default
    value. The descriptor that it leaves comes first: the bounds are set before the allocator is
    asked, and stay when it refuses. -/
def allocate (env : Environment) (d : Descriptor) (lower upper : List Subscript) :
    Run (Descriptor × Outcome) := do
  match d.allocationSize lower upper with
  | .error e => return (d, .error e)
  | .ok size =>
    let d ← Run.ofExcept (d.setBounds lower upper)
    match ← Run.requestBlock env size with
    | none => return (d, .error .outOfMemory)
    | some block =>
      let data : Address := ⟨.heap block, 0⟩
      let d := { d with base := some data }
      Run.log (.allocated size d.elementCount d.typeCode)
      d.setDefaults env data
      return (d, .ok ())

/-- Tears down the storage of an allocatable and frees it. The descriptor that it leaves comes
    first. -/
def deallocate (env : Environment) (d : Descriptor) (finalize : Bool) :
    Run (Descriptor × Outcome) := do
  if !d.isAllocatable then return (d, .error .notAllocatable)
  else
    match d.base with
    | none => return (d, .error .notAllocated)
    | some data =>
      d.destroyElements env (some data) finalize
      Run.freeStorage d data
      return ({ d with base := none }, .ok ())

/-! ### LEN values -/

/-- The slots of the LEN parameters of a type, in declaration order. -/
def lenSlotsOf (ty : DerivedType) : List Nat :=
  ty.lenParameters.filterMap (·.slot?)

/-- Stores values in slots. -/
def storeLenValues (d : Descriptor) (values : List (Nat × Subscript)) : Except Fault Descriptor :=
  values.foldlM (fun d (slot, value) => d.setLenValue slot value) d

/-- Slots hold the given values; slots after the first difference are not looked at. -/
def holdsLenValues (d : Descriptor) (values : List (Nat × Subscript)) : Except Fault Bool :=
  values.allM fun (slot, value) => do return (← d.lenValue slot) == value

/-- Records explicit LEN values in declaration order. An unallocated descriptor takes them, an
    allocated one must hold them already. -/
def applyLenValues (d : Descriptor) (values : List Subscript) :
    Except Fault (Descriptor × Outcome) :=
  match d.derivedType? with
  | none => .ok (d, .error .generic)
  | some ty => do
    if values.length ≠ ty.lenParameters.length then return (d, .error .lengthMismatch)
    else
      let slots := (lenSlotsOf ty).zip values
      if d.isAllocated then
        if ← d.holdsLenValues slots then return (d, .ok ())
        else return (d, .error .lengthMismatch)
      else return (← d.storeLenValues slots, .ok ())

end Descriptor

/-! ### STAT and ERRMSG -/

/-- A message as an ERRMSG variable of `length` bytes holds it: cut off, or padded with blanks. -/
def paddedMessage (message : String) (length : Nat) : List UInt8 :=
  let bytes := message.toUTF8.data.toList.take length
  bytes ++ .replicate (length - bytes.length) 0x20

namespace StatError

/-- Writes the message of an error to an ERRMSG variable. One that is absent, unallocated or not of
    default characters is left alone. -/
def writeMessage (e : StatError) (errmsg : Option Descriptor) : Run Unit :=
  match errmsg.bind fun d => d.base.map (d, ·) with
  | none => pure ()
  | some (d, base) =>
    if d.typeCode.isCharacter && d.typeCode.kind == 1 then
      let length := d.elementSize.toNat
      Run.store base length (fun m => m.write base (paddedMessage e.message length))
    else Run.log (.errmsgUnchanged d.typeCode)

end StatError

/-- The STAT code of a statement, whose failure also goes to the ERRMSG variable. -/
def Outcome.stat (outcome : Outcome) (errmsg : Option Descriptor) : Run Nat :=
  match outcome with
  | .ok () => pure 0
  | .error e => do
    e.writeMessage errmsg
    return e.code

/-- The STAT code of an ALLOCATE statement as far as the state of the variable decides it. -/
def Descriptor.checkAllocated (d : Descriptor) (errmsg : Option Descriptor) : Run Nat :=
  Outcome.stat (if d.isAllocated then .error .alreadyAllocated else .ok ()) errmsg

end DerivedTypes
