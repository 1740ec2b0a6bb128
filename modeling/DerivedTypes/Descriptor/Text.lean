import DerivedTypes.Descriptor.Shape
import DerivedTypes.StyledText

namespace DerivedTypes

/-!
# Descriptors as text

* `Descriptor.dump`: a descriptor with its dimensions and the values of its type parameters, as
  styled lines (`dumpLines`) that a palette turns into text;
* `Descriptor.inspect`: its fields and the dimensions that its rank counts, in one line.
-/

/-! ### Dumps -/

/-- The dimension at a position. -/
def Dimension.dumpLine (dim : Dimension) (position : Nat) : StyledText :=
  [.plain s!"  dim[{position}] lower_bound ", .value dim.lower.toInt,
    .plain ", extent ", .value dim.extent.toInt,
    .plain ", byte_stride ", .value dim.byteStride.toInt]

/-- A parameter with its value in the described instances. -/
def TypeParameter.dumpLineIn (p : TypeParameter) (d : Descriptor) : Except Fault StyledText := do
  let value ← p.valueIn d
  let word := if p.isKind then "kind " else "len "
  return [.plain ("    " ++ word ++ p.name ++ " = "), .value value.toInt]

namespace Descriptor

/-- The lines on the addendum, if it counts. -/
def dumpAddendum (d : Descriptor) : Except Fault (List StyledText) :=
  if !d.hasAddendum then .ok []
  else
    match d.addendumType with
    | none => .ok [[.plain "  addendum without type"]]
    | some ty => do
      let parameters ← ty.parameters.mapM (·.dumpLineIn d)
      return [.plain "  derived type ", .typeName ty.name] :: parameters

/-- The lines of the dump of a descriptor. -/
def dumpLines (d : Descriptor) : Except Fault (List StyledText) := do
  let head : StyledText :=
    [.plain "descriptor rank ", .value d.rank.toNat,
      .plain ", elem_len ", .value d.elementSize.toNat,
      .plain (", type " ++ d.typeCode.text ++ ", attribute " ++ d.attr.name)]
  let base : StyledText := [.plain ("  base_addr " ++ if d.isAllocated then "set" else "null")]
  let suppressed : List StyledText :=
    if d.isFinalizationSuppressed then [[.plain "  ", .note "do not finalize"]] else []
  let dims := d.dimensions.zipIdx.map fun (dim, position) => dim.dumpLine position
  return [head, base] ++ suppressed ++ dims ++ (← d.dumpAddendum)

/-- The dump of a descriptor. It fails when a LEN parameter has no slot to read. -/
def dump (d : Descriptor) (p : Palette) : Except Fault String := do
  return StyledText.renderLines p (← d.dumpLines)

end Descriptor

/-! ### Inspection texts -/

/-- The inspection text of a dimension. -/
def Dimension.inspect (dim : Dimension) : String :=
  Inspect.record "Dimension"
    [("lower_bound", toString dim.lower.toInt),
      ("extent", toString dim.extent.toInt),
      ("byte_stride", toString dim.byteStride.toInt)]

namespace Descriptor

/-- The flags of a descriptor, with the bits that have no meaning as a number. -/
def inspectFlags (d : Descriptor) : String :=
  Inspect.flags "DescriptorFlags"
    ((if d.hasAddendum then ["ADDENDUM"] else []) ++
      (if d.isFinalizationSuppressed then ["DO_NOT_FINALIZE"] else []))
    (d.flags.toNat / 4 * 4)

/-- The inspection text of a descriptor. -/
def inspect (d : Descriptor) : String :=
  Inspect.record "Descriptor"
    [("base_addr", (d.base.map (·.text)).getD "0x0"),
      ("elem_len", toString d.elementSize.toNat),
      ("type_code", d.typeCode.inspect),
      ("rank", toString d.rank.toNat),
      ("attribute", d.attr.label),
      ("flags", d.inspectFlags),
      ("dim", Inspect.list (d.dimensions.map (·.inspect))),
      ("derived_type", Inspect.optional (d.derivedType?.map fun ty => Inspect.quoted ty.name))]

end Descriptor

end DerivedTypes
