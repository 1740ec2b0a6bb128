namespace DerivedTypes

/-!
# Faults

What stops an operation for good. A `FatalError` is a table that contradicts itself: going on would
mean reading unrelated memory as type metadata, so it is reported and nothing follows. An index out
of range stops without a report. `Undefined` names what the operations leave open, such as an
address outside every region.
-/

/-- The link of a parent field that its table fails to provide. -/
inductive MissingLink where
  | staticDescriptor
  | addendum
  | derivedType
deriving DecidableEq, Repr, Inhabited

/-- A table, or a request, that contradicts itself. -/
inductive FatalError where
  /-- More dimensions than a descriptor has room for. -/
  | tooManyDimensions
  /-- The parent field of an extended type leads to no type. -/
  | missingParent (typeName : String) (link : MissingLink)
deriving DecidableEq, Repr, Inhabited

/-- A use of memory that the operations give no meaning to. -/
inductive Undefined where
  | outsideMemory
  | notDescriptor
  /-- The storage to free is not a live block. -/
  | notBlock
  /-- A descriptor owns, through other descriptors, the storage that it lies in itself. -/
  | endlessOwnership
deriving DecidableEq, Repr, Inhabited

/-- Why an operation did not finish. -/
inductive Fault where
  | fatal (error : FatalError)
  | indexOutOfRange
  | undefined (cause : Undefined)
deriving DecidableEq, Repr, Inhabited

/-- How every fatal report begins. -/
def fatalReport (message : String) : String :=
  "fatal internal error: " ++ message

/-- The message of a structural check that did not hold. -/
def failedCheck (predicate : String) : String :=
  "RUNTIME_CHECK(" ++ predicate ++ ") failed"

/-- A place in a program that reports fatal errors. -/
structure Site where
  file : String
  line : Nat
deriving DecidableEq, Repr, Inhabited

/-- The report of a message that names where it comes from. -/
def Site.report (site : Site) (message : String) : String :=
  fatalReport (message ++ " at " ++ site.file ++ "(" ++ toString site.line ++ ")")

/-- What is wrong with the parent field. -/
def MissingLink.message : MissingLink → String
  | staticDescriptor => "parent component has no static descriptor"
  | addendum => "parent static descriptor has no addendum"
  | derivedType => "parent addendum names no type"

/-- The message of a fatal error. -/
def FatalError.message : FatalError → String
  | tooManyDimensions => failedCheck "extents.len() <= MAX_RANK"
  | missingParent typeName link => "type '" ++ typeName ++ "': " ++ link.message

/-- The whole report of a fatal error. -/
def FatalError.report (error : FatalError) : String :=
  fatalReport error.message

end DerivedTypes
