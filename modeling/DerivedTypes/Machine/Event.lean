import DerivedTypes.DerivedType.Basic
import DerivedTypes.DerivedType.Layout
import DerivedTypes.StyledText

namespace DerivedTypes

/-!
# Events

What an operation lets others see, in order of occurrence: trace lines of its steps, calls of bound
procedures, requests to the allocator, and log records.
-/

/-- Which rule gives an instance its default value. -/
inductive DefaultRule where
  /-- The default image is copied. -/
  | image
  /-- The initializer is called. -/
  | procedure
  /-- The instance is filled with zeros. -/
  | zeroFill
  /-- Embedded elements are initialized one by one. -/
  | components
deriving DecidableEq, Repr, Inhabited

namespace DefaultRule

/-- All rules, in the order in which they are tried. -/
def all : List DefaultRule := [image, procedure, zeroFill, components]

/-- The word for a rule. -/
def label : DefaultRule → String
  | image => "image"
  | procedure => "procedure"
  | zeroFill => "zero-fill"
  | components => "components"

end DefaultRule

/-- One step of an operation on an instance of a type. -/
inductive Trace where
  /-- A rule gives the instance its default value. -/
  | init (ty : DerivedType) (rule : DefaultRule)
  /-- A finalizer is about to be called. -/
  | finalize (ty : DerivedType) (procedure : Procedure)
  /-- The components, parent excepted, are about to be torn down. -/
  | destroyComponents (ty : DerivedType)
  /-- The storage of a descriptor component is about to be released. -/
  | release (ty : DerivedType) (component : Component)
  /-- The data of the parent type come next. -/
  | enterParent (ty parent : DerivedType)

/-- The line that shows a step. -/
def Trace.line : Trace → StyledText
  | init ty rule => [.plain "init ", .typeName ty.name, .plain (": " ++ rule.label)]
  | finalize ty procedure => [.plain "final ", .typeName ty.name, .plain (": " ++ procedure.name)]
  | destroyComponents ty => [.plain "destroy ", .typeName ty.name]
  | release ty component => [.plain "release ", .typeName ty.name, .plain ("%" ++ component.name)]
  | enterParent ty parent =>
    [.plain "parent ", .typeName ty.name, .plain " -> ", .typeName parent.name]

/-- What a bound procedure receives: the address of one instance, or a descriptor of many. -/
inductive Argument where
  | scalar (address : Address)
  | array (view : Descriptor)

/-- Importance of a log record. -/
inductive LogLevel where
  | trace
  | debug
  | warn
  | error
deriving DecidableEq, Repr, Inhabited

/-- The name of a log level. -/
def LogLevel.name : LogLevel → String
  | trace => "TRACE"
  | debug => "DEBUG"
  | warn => "WARN"
  | error => "ERROR"

/-- What is worth a log record. -/
inductive LogRecord where
  | layoutCheckFailed (error : LayoutError)
  /-- An ERRMSG variable that cannot hold a message. -/
  | errmsgUnchanged (typeCode : TypeCode)
  | allocated (bytes elements : Nat) (typeCode : TypeCode)
  | freeing (bytes : Nat) (typeCode : TypeCode)
  /-- The size of the storage is beyond every layout, so it stays. -/
  | cannotFree (typeCode : TypeCode)
  | fatal (report : String)
deriving Inhabited

namespace LogRecord

/-- The importance of a record. -/
def level : LogRecord → LogLevel
  | layoutCheckFailed _ | errmsgUnchanged _ => .debug
  | allocated .. | freeing .. => .trace
  | cannotFree _ => .warn
  | fatal _ => .error

/-- The text of a record. -/
def text : LogRecord → String
  | layoutCheckFailed error => "layout check failed: " ++ error.message
  | errmsgUnchanged typeCode => "ERRMSG of type " ++ typeCode.text ++ " left unchanged"
  | allocated bytes elements typeCode =>
    s!"allocated {bytes} bytes for {elements} element(s) of " ++ typeCode.text
  | freeing bytes typeCode => s!"freeing {bytes} bytes of " ++ typeCode.text
  | cannotFree typeCode => "cannot free storage of " ++ typeCode.text ++ ": invalid layout"
  | fatal report => report

end LogRecord

/-- What others see of an operation. -/
inductive Event where
  | trace (step : Trace)
  | call (procedure : Procedure) (context : ExecutionContext) (argument : Argument)
  | allocated (block size : Nat)
  | allocationRefused (size : Nat)
  | freed (block size : Nat)
  | log (record : LogRecord)

end DerivedTypes
