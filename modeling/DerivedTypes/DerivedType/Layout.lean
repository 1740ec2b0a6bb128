import DerivedTypes.DerivedType.Summary
import DerivedTypes.Descriptor.Shape

namespace DerivedTypes

/-!
# Layout of instances

Offsets are trusted whenever an instance is used; `DerivedType.checkLayout` is where they are
checked, once, against the declared size. It reports the first violation, in the order image,
parameters, initializers, components.
-/

/-- Bytes that a component takes in an instance, or nothing when its type code has no fixed element
    size or a word cannot hold the number. -/
def Component.storageBytes? (c : Component) : Option Nat :=
  if c.isDescriptor then some descriptorBytes
  else
    match c.static? with
    | some shape => shape.storageBytes?
    | none => c.typeCode.elementBytes?

/-- How a table contradicts the layout that it declares. -/
inductive Violation where
  | imageSize (expected actual : Nat)
  | kindAfterLen (parameter : String)
  | slotOutOfRange (parameter : String) (slot : Nat)
  | severalInitializers (count : Nat)
  | parentNotFirst (component : String)
  | unresolvedParent (component : String)
  | staticDescriptor (component : String)
  | outOfBounds (component : String) (offset size bytes : Nat)
  | misaligned (component : String) (offset alignment : Nat)
deriving DecidableEq, Repr, Inhabited

namespace Violation

/-- The name of a violation in answers. -/
def label : Violation → String
  | imageSize .. => "InitializerSize"
  | kindAfterLen _ => "KindAfterLen"
  | slotOutOfRange .. => "LenIndexOutOfRange"
  | severalInitializers _ => "MultipleInitializers"
  | parentNotFirst _ => "ParentNotFirst"
  | unresolvedParent _ => "UnresolvedParent"
  | staticDescriptor _ => "DescriptorWithStaticDescriptor"
  | outOfBounds .. => "ComponentOutOfBounds"
  | misaligned .. => "Misaligned"

/-- What is wrong. -/
def message : Violation → String
  | imageSize expected actual => s!"default image has {actual} bytes, instance has {expected}"
  | kindAfterLen parameter => s!"KIND parameter '{parameter}' follows a LEN parameter"
  | slotOutOfRange parameter slot =>
    s!"LEN parameter '{parameter}' uses slot {slot} (maximum {lenSlots})"
  | severalInitializers count => s!"{count} procedures are flagged initializer"
  | parentNotFirst component => s!"parent component '{component}' is not component 0"
  | unresolvedParent component => s!"parent component '{component}' does not name a type"
  | staticDescriptor component =>
    s!"descriptor component '{component}' also has a static descriptor"
  | outOfBounds component offset size bytes =>
    s!"component '{component}' at {offset}+{size} exceeds {bytes} bytes"
  | misaligned component offset alignment =>
    s!"component '{component}' at {offset} is not {alignment}-byte aligned"

end Violation

/-- A violation, and the type that commits it. -/
structure LayoutError where
  typeName : String
  violation : Violation
deriving DecidableEq, Repr, Inhabited

/-- The message of a layout error names the type first. -/
def LayoutError.message (e : LayoutError) : String :=
  "type '" ++ e.typeName ++ "': " ++ e.violation.message

/-- What is wrong with a parameter that follows the leading KIND parameters. -/
def TypeParameter.violation? (p : TypeParameter) : Option Violation :=
  match p.slot? with
  | none => some (.kindAfterLen p.name)
  | some slot => if lenSlots ≤ slot then some (.slotOutOfRange p.name slot) else none

/-- What is wrong with the component at a position of a type of `bytes` bytes. -/
def Component.violation? (bytes : Nat) (c : Component) (position : Nat) : Option Violation :=
  let offset := c.offset.toNat
  let size := c.storageBytes?.getD 0
  if c.isParent && position != 0 then some (.parentNotFirst c.name)
  else if c.isParent && c.derivedType?.isNone then some (.unresolvedParent c.name)
  else if c.isDescriptor && c.static?.isSome then some (.staticDescriptor c.name)
  else if (Word.add? offset size).all (bytes < ·) then some (.outOfBounds c.name offset size bytes)
  else if offset % c.alignment != 0 then some (.misaligned c.name offset c.alignment)
  else none

namespace DerivedType

/-- What is wrong with the default image. -/
def imageViolation? (ty : DerivedType) : Option Violation :=
  match ty.image with
  | none => none
  | some image =>
    if image.length = ty.size.toNat then none else some (.imageSize ty.size.toNat image.length)

/-- What is wrong with the number of initializers. -/
def initializerViolation? (ty : DerivedType) : Option Violation :=
  let count := ty.procedures.countP (·.isInitializer)
  if 1 < count then some (.severalInitializers count) else none

/-- The first violation of a table. -/
def violation? (ty : DerivedType) : Option Violation :=
  ty.imageViolation? <|>
  ty.lenParameters.findSome? (·.violation?) <|>
  ty.initializerViolation? <|>
  ty.components.zipIdx.findSome? fun (c, position) => c.violation? ty.size.toNat position

/-- Checks a table against the size that it declares. -/
def checkLayout (ty : DerivedType) : Except LayoutError Unit :=
  match ty.violation? with
  | none => .ok ()
  | some violation => .error ⟨ty.name, violation⟩

/-- A layout is accepted if nothing violates it. -/
theorem checkLayout_eq_ok_iff {ty : DerivedType} :
    ty.checkLayout = .ok () ↔ ty.violation? = none := by
  unfold checkLayout
  cases ty.violation? <;> simp

end DerivedType

end DerivedTypes
