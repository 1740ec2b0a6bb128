import DerivedTypes.DerivedType.TypeFlag
import DerivedTypes.Descriptor.Shape
import DerivedTypes.StyledText

namespace DerivedTypes

/-!
# Types as text

* `DerivedType.dump`: a type with its parameters, components and procedures in table order, as
  styled lines (`dumpLines`) that a palette turns into text;
* `DerivedType.inspect`: its size, its flags and how many parts it has, in one line.
-/

/-! ### Dumps -/

/-- A parameter with its static value. -/
def TypeParameter.dumpLine (p : TypeParameter) : StyledText :=
  match p.slot? with
  | none => [.plain ("  kind " ++ p.name ++ " = "), .value p.value.toInt]
  | some slot =>
    [.plain ("  len " ++ p.name ++ " = "), .value p.value.toInt, .plain s!" (slot {slot})"]

namespace Component

/-- The notes on a component. -/
def notes (c : Component) : List String :=
  (if c.isParent then ["parent"] else []) ++
  (if c.isPrivate then ["private"] else []) ++
  (if c.isDescriptor then ["descriptor"] else [])

/-- The type of a component, by name where a static descriptor gives one. -/
def dumpType (c : Component) : StyledText :=
  match c.derivedType? with
  | some nested => [.plain "TYPE(", .typeName nested.name, .plain ")"]
  | none => [.plain c.typeCode.text]

/-- The extents of a component of fixed shape. -/
def dumpShape (c : Component) : StyledText :=
  match c.static? with
  | none => []
  | some shape =>
    if shape.rank = 0 then []
    else
      let extents := shape.dimensions.map fun dim => toString dim.extent.toInt
      [.plain (", dimension(" ++ ",".intercalate extents ++ ")")]

/-- A component with its type, shape, offset and notes. -/
def dumpLine (c : Component) : StyledText :=
  [.plain ("  component " ++ c.name ++ ": ")] ++ c.dumpType ++ c.dumpShape ++
  [.plain " @ ", .value c.offset.toNat] ++
  match c.notes with
  | [] => []
  | notes => [.plain " ", .note ("[" ++ commaSeparated notes ++ "]")]

end Component

namespace Procedure

/-- The ranks that a FINAL subroutine finalizes. -/
def finalRole (p : Procedure) : List String :=
  if p.isAssumedRankFinal then ["final(*)"]
  else if p.finalRanks = 0 then []
  else
    let ranks := (List.range 32).filter p.isFinalForRank
    ["final(" ++ ",".intercalate (ranks.map toString) ++ ")"]

/-- The roles of a procedure; one without any is a plain binding. -/
def roleWords (p : Procedure) : List String :=
  let roles :=
    (if p.isInitializer then ["initializer"] else []) ++
    (if p.isAssignment then ["assignment"] else []) ++
    p.finalRole ++
    (if p.isElemental then ["elemental"] else [])
  if roles.isEmpty then ["binding"] else roles

/-- A procedure with its roles. -/
def dumpLine (p : Procedure) : StyledText :=
  [.plain ("  procedure " ++ p.name ++ ": "), .note (commaSeparated p.roleWords)]

end Procedure

namespace DerivedType

/-- The lines of the dump of a type. -/
def dumpLines (ty : DerivedType) : List StyledText :=
  let base : List StyledText :=
    match ty.base? with
    | none => []
    | some base => [[.plain "  extends ", .typeName base.name]]
  let flags : List StyledText :=
    match ty.flags with
    | [] => []
    | flags => [[.plain "  flags ", .note (commaSeparated (flags.map (·.word)))]]
  let image : List StyledText :=
    match ty.image with
    | none => []
    | some image => [[.plain "  default image (", .value image.length, .plain " bytes)"]]
  [[.plain "type ", .typeName ty.name, .plain " (", .value ty.size.toNat, .plain " bytes)"]] ++
  base ++ flags ++ image ++
  ty.parameters.map (·.dumpLine) ++
  ty.components.map (·.dumpLine) ++
  ty.procedures.map (·.dumpLine)

/-- The dump of a type. -/
def dump (ty : DerivedType) (p : Palette) : String :=
  StyledText.renderLines p ty.dumpLines

end DerivedType

/-! ### Inspection texts -/

/-- The inspection text of a type. -/
def DerivedType.inspect (ty : DerivedType) : String :=
  Inspect.record "DerivedType"
    [("name", Inspect.quoted ty.name),
      ("bytes", toString ty.size.toNat),
      ("flags", Inspect.flags "TypeFlags" (ty.flags.map (·.label)) 0),
      ("parameters", toString ty.parameters.length),
      ("components", toString ty.components.length),
      ("procedures", toString ty.procedures.length),
      ("base", Inspect.optional (ty.base?.map fun base => Inspect.quoted base.name))]

end DerivedTypes
