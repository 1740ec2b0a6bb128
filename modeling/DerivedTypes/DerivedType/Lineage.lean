import DerivedTypes.DerivedType.Basic
import DerivedTypes.Fault

namespace DerivedTypes

/-!
# Types and their relations

* `DerivedType.kindParameters` and `lenParameters`: the two kinds of parameters, which a table lists
  in this order;
* `base?`, `ancestors`, `parent`: the types that a type extends;
* `sameTypeAs`, `typeIs`, `isExtensionOf`: how two types relate.
-/

namespace DerivedType

/-! ### Parameters -/

/-- The KIND parameters with which the list begins. -/
def kindParameters (ty : DerivedType) : List TypeParameter :=
  ty.parameters.takeWhile (·.isKind)

/-- The parameters after the leading KIND parameters. -/
def lenParameters (ty : DerivedType) : List TypeParameter :=
  ty.parameters.dropWhile (·.isKind)

/-! ### Procedures -/

/-- The last procedure with the role of initializer. -/
def initializer? (ty : DerivedType) : Option Procedure :=
  (ty.procedures.filter (·.isInitializer)).getLast?

/-- Some procedure of the type is a finalizer. -/
def isFinalizable (ty : DerivedType) : Bool :=
  ty.procedures.any (·.isFinalizer)

/-! ### Components -/

/-- Whether a component of the type itself, or of the types it extends, is private. -/
def anyPrivate (ty : DerivedType) : Bool :=
  ty.components.any (·.isPrivate)

/-- The first component is a parent field. -/
def isExtension (ty : DerivedType) : Bool :=
  ty.components.head?.any (·.isParent)

/-- The type that the first component holds, or the link that its table lacks. -/
def parent (ty : DerivedType) : Except MissingLink DerivedType :=
  match ty.components.head?.bind (·.static?) with
  | none => .error .staticDescriptor
  | some shape =>
    if shape.hasAddendum then
      match shape.addendumType with
      | none => .error .derivedType
      | some parent => .ok parent
    else .error .addendum

/-- The type extended by this one. -/
def base? (ty : DerivedType) : Option DerivedType :=
  (ty.components.head?.filter (·.isParent)).bind (·.derivedType?)

/-- The type that is extended is smaller than the extension. -/
theorem sizeOf_base {ty base : DerivedType} (h : ty.base? = some base) :
    sizeOf base < sizeOf ty := by
  obtain ⟨c, first, named⟩ := Option.bind_eq_some_iff.mp h
  exact sizeOf_component (List.mem_of_mem_head? (Option.filter_eq_some_iff.mp first).1) named

/-- The parent is the type of the first component, if that has one. -/
theorem parent_eq_ok_iff {ty parent : DerivedType} :
    ty.parent = .ok parent ↔ ty.components.head?.bind (·.derivedType?) = some parent := by
  unfold DerivedType.parent Component.derivedType? Descriptor.derivedType?
  cases ty.components.head? <;> grind

/-- The parent is smaller than the type. -/
theorem sizeOf_parent {ty parent : DerivedType} (h : ty.parent = .ok parent) :
    sizeOf parent < sizeOf ty := by
  obtain ⟨c, first, named⟩ := Option.bind_eq_some_iff.mp (parent_eq_ok_iff.mp h)
  exact sizeOf_component (List.mem_of_mem_head? first) named

/-- The types extended by this one, nearest first. -/
def ancestors (ty : DerivedType) : List DerivedType :=
  match _h : ty.base? with
  | none => []
  | some base => base :: base.ancestors
termination_by sizeOf ty
decreasing_by exact sizeOf_base _h

/-- The ancestors of an extension are its base and the ancestors of that. -/
theorem ancestors_of_base? {ty base : DerivedType} (named : ty.base? = some base) :
    ty.ancestors = base :: base.ancestors := by
  rw [ancestors]
  split
  · next none => rw [named] at none; cases none
  · next base named' =>
    obtain rfl := Option.some.inj (named.symm.trans named')
    rfl

/-- A type that extends no other has no ancestors. -/
theorem ancestors_of_base?_none {ty : DerivedType} (none : ty.base? = none) :
    ty.ancestors = [] := by
  rw [ancestors]
  split
  · rfl
  · next base named => rw [none] at named; cases named

/-! ### Relations -/

/-- The same type, whatever the values of its parameters: the names of the type, of its parameters
    and of its components agree. -/
def sameTypeAs (a b : DerivedType) : Bool :=
  a.name == b.name && a.parameters.map (·.name) == b.parameters.map (·.name) &&
    a.components.map (·.name) == b.components.map (·.name)

/-- The same type, with equal values of the KIND parameters that both have. -/
def typeIs (a b : DerivedType) : Bool :=
  a.sameTypeAs b &&
    (a.kindParameters.zip b.kindParameters).all fun (p, q) => p.value == q.value

/-- The type itself, or one of its ancestors, is the same type as `ancestor`. -/
def isExtensionOf (a ancestor : DerivedType) : Bool :=
  (a :: a.ancestors).any (·.sameTypeAs ancestor)

end DerivedType

end DerivedTypes
