import DerivedTypes.DerivedType.Lineage

namespace DerivedTypes

/-!
# Summaries of types

What default initialization has to do and how an instance must be aligned depend on all types nested
in a type, and nested types share types of their own. So each type carries a `Summary`, computed
once from its components and the summaries of the types that these name: `DerivedType.summarize`
puts it in.

* `DerivedType.computedSummary`: the summary that a table should carry;
* `DerivedType.Summarized`: a type and all types nested in it carry the right one. Types are built
  from others by `summarize`, which keeps this (`summarized_summarize`);
* `Summarized.fillFlags_eq`, `Summarized.alignment_eq`: what the summary says, in terms of
  components.
-/

/-! ### Default values -/

namespace DerivedType

/-- The type has a default image or an initializer of its own. -/
def initializesItself (ty : DerivedType) : Bool :=
  ty.image.isSome || ty.procedures.any (·.isInitializer)

/-- What the components of a type ask for; nothing, when the type initializes itself. -/
def fillFlags (ty : DerivedType) : FillFlags := ty.summary.fillFlags

end DerivedType

/-- What a component asks of the type that it belongs to. -/
def Component.fillFlags (c : Component) : FillFlags :=
  if c.isDescriptor then .zeroFill
  else
    match c.derivedType? with
    | none => .none
    | some nested => .asked nested.initializesItself nested.fillFlags

namespace DerivedType

/-- Default initialization fills the instance with zeros. -/
def isZeroFilled (ty : DerivedType) : Bool := ty.fillFlags.zero

/-- Default initialization goes into embedded elements. -/
def isFilledByComponent (ty : DerivedType) : Bool := ty.fillFlags.component

/-- Default initialization may change a byte. -/
def isInitializable (ty : DerivedType) : Bool :=
  ty.initializesItself || ty.isZeroFilled || ty.isFilledByComponent

/-- Default initialization is exactly a zero fill. -/
def isZeroOnly (ty : DerivedType) : Bool :=
  ty.isZeroFilled && !ty.isFilledByComponent

end DerivedType

/-! ### Alignment -/

/-- The largest alignment of the components of a type, at least 1. -/
def DerivedType.alignment (ty : DerivedType) : Nat := ty.summary.alignment

namespace Component

/-- The alignment that a component asks for itself, when it does not depend on a nested type. -/
def ownAlignment (c : Component) : Nat :=
  if c.isDescriptor then descriptorAlignment
  else
    match c.static? with
    | some shape => shape.typeCode.alignment
    | none => c.typeCode.alignment

/-- Required alignment of a component: that of the type embedded in it, if there is one. -/
def alignment (c : Component) : Nat :=
  match c.embedded? with
  | none => c.ownAlignment
  | some (_, nested) => nested.alignment

end Component

/-! ### Summaries -/

namespace DerivedType

/-- What follows from a table, as far as the types that it names carry the right summaries. -/
def computedSummary (ty : DerivedType) : Summary where
  fillFlags :=
    if ty.initializesItself then .none else (ty.components.map (·.fillFlags)).foldr .both .none
  alignment := (ty.components.map (·.alignment)).foldr max 1

/-- The type with the summary that follows from its table. -/
def summarize (ty : DerivedType) : DerivedType :=
  { ty with summary := ty.computedSummary }

/-- A summary changes no component. -/
@[simp] theorem components_summarize (ty : DerivedType) :
    ty.summarize.components = ty.components := rfl

/-- A type and all types nested in it carry the summaries that follow from their tables. -/
inductive Summarized : DerivedType → Prop
  | intro {ty : DerivedType} (own : ty.summary = ty.computedSummary)
      (nested : ∀ c ∈ ty.components, ∀ inner, c.derivedType? = some inner → Summarized inner) :
      Summarized ty

/-- A type over summarized types is summarized. -/
theorem summarized_summarize {ty : DerivedType}
    (nested : ∀ c ∈ ty.components, ∀ inner, c.derivedType? = some inner → Summarized inner) :
    ty.summarize.Summarized :=
  .intro rfl nested

namespace Summarized

/-- The summary that a type carries is the right one. -/
theorem summary_eq {ty : DerivedType} (h : ty.Summarized) : ty.summary = ty.computedSummary := by
  cases h
  assumption

/-- The types that components name carry the right summaries as well. -/
theorem of_component {ty inner : DerivedType} {c : Component} (h : ty.Summarized)
    (mem : c ∈ ty.components) (named : c.derivedType? = some inner) : inner.Summarized := by
  cases h with
  | intro _ nested => exact nested c mem inner named

/-- A type that initializes itself asks nothing of its components. -/
theorem fillFlags_of_initializesItself {ty : DerivedType} (h : ty.Summarized)
    (itself : ty.initializesItself) : ty.fillFlags = .none := by
  rw [fillFlags, h.summary_eq, computedSummary, if_pos itself]

/-- A type that does not initialize itself does what its components ask for. -/
theorem fillFlags_eq {ty : DerivedType} (h : ty.Summarized)
    (notItself : ty.initializesItself = false) :
    ty.fillFlags = (ty.components.map (·.fillFlags)).foldr .both .none := by
  rw [fillFlags, h.summary_eq, computedSummary, if_neg (by simp [notItself])]

/-- The alignment of a type is the largest one among its components, at least 1. -/
theorem alignment_eq {ty : DerivedType} (h : ty.Summarized) :
    ty.alignment = (ty.components.map (·.alignment)).foldr max 1 := by
  rw [DerivedType.alignment, h.summary_eq, computedSummary]

end Summarized

end DerivedType

end DerivedTypes
