namespace DerivedTypes

/-!
# What default initialization has to do

A type with a default image or an initializer initializes itself. Any other type gets its default
value from its components: descriptor components want a zero fill, and an embedded type wants either
a zero fill as well, which one fill of the whole instance covers, or its own default value in each
element. `FillFlags` are the two jobs that come out of this.
-/

/-- What default initialization does to the components of an instance. -/
structure FillFlags where
  /-- The whole instance is filled with zeros. -/
  zero : Bool
  /-- Embedded elements are initialized one by one. -/
  component : Bool
deriving DecidableEq, Repr, Inhabited

namespace FillFlags

/-- Nothing to do. -/
def none : FillFlags := ⟨false, false⟩

/-- A zero fill. -/
def zeroFill : FillFlags := ⟨true, false⟩

/-- Initialization of embedded elements. -/
def perElement : FillFlags := ⟨false, true⟩

/-- Both of two jobs. -/
def both (a b : FillFlags) : FillFlags :=
  ⟨a.zero || b.zero, a.component || b.component⟩

/-- What a type asks of a type in which it is embedded. -/
def asked (initializesItself : Bool) (flags : FillFlags) : FillFlags :=
  if flags.zero && !flags.component then zeroFill
  else if initializesItself || flags.zero || flags.component then perElement
  else none

end FillFlags

end DerivedTypes
