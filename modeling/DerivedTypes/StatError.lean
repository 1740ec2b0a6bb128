import DerivedTypes.Inspect

namespace DerivedTypes

/-!
# STAT errors

Why an ALLOCATE or DEALLOCATE statement failed, with the code for its STAT variable and the message
for its ERRMSG variable.
-/

/-- A failed allocation statement. -/
inductive StatError where
  | generic
  | alreadyAllocated
  | lengthMismatch
  | notAllocated
  /-- The numbers of bounds given do not fit the rank. -/
  | rankMismatch (rank lower upper : Nat)
  | outOfMemory
  | notAllocatable
deriving DecidableEq, Repr, Inhabited

namespace StatError

/-- The code of an error; 0 stands for success. -/
def code : StatError → Nat
  | generic => 1
  | alreadyAllocated => 101
  | lengthMismatch => 102
  | notAllocated => 103
  | rankMismatch .. => 104
  | outOfMemory => 105
  | notAllocatable => 106

/-- The message of an error. -/
def message : StatError → String
  | generic => "generic error"
  | alreadyAllocated => "Object in ALLOCATE statement is already allocated"
  | lengthMismatch => "Explicit length type parameter value mismatch"
  | notAllocated => "Object in DEALLOCATE statement is not allocated"
  | rankMismatch rank lower upper =>
    s!"Bounds do not match rank {rank} (lower {lower}, upper {upper})"
  | outOfMemory => "Memory allocation failed"
  | notAllocatable => "Object is not allocatable"

/-- The name of an error in answers. -/
def label : StatError → String
  | generic => "Generic"
  | alreadyAllocated => "AlreadyAllocated"
  | lengthMismatch => "LengthTypeParameterMismatch"
  | notAllocated => "NotAllocated"
  | rankMismatch .. => "RankMismatch"
  | outOfMemory => "OutOfMemory"
  | notAllocatable => "NotAllocatable"

/-- The inspection text of an error. -/
def inspect (e : StatError) : String :=
  match e with
  | rankMismatch rank lower upper =>
    Inspect.record e.label
      [("rank", toString rank), ("lower", toString lower), ("upper", toString upper)]
  | _ => e.label

end StatError

end DerivedTypes
