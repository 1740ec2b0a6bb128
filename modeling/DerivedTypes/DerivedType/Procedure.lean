import DerivedTypes.Inspect

namespace DerivedTypes

/-!
# Type-bound procedures

A procedure has roles, given by bits, and an entry point per execution context. Its ranks mask has
bit `r` set when it is a FINAL subroutine for rank `r`.
-/

/-- Where procedures run. -/
inductive ExecutionContext where
  | host
  | device
deriving DecidableEq, Repr, Inhabited

/-- The name of an execution context. -/
def ExecutionContext.name : ExecutionContext → String
  | host => "host"
  | device => "device"

/-- Where the code of a procedure begins. -/
structure EntryPoint where
  index : Nat
deriving DecidableEq, Repr, Inhabited

/-- The entry points of one procedure. -/
structure EntryPoints where
  host : Option EntryPoint := none
  device : Option EntryPoint := none
deriving DecidableEq, Repr, Inhabited

namespace EntryPoints

/-- The entry point for a context. -/
def entry? (code : EntryPoints) : ExecutionContext → Option EntryPoint
  | .host => code.host
  | .device => code.device

/-- The inspection text: which entry points there are. -/
def inspect (code : EntryPoints) : String :=
  Inspect.record "ExecutableCode"
    [("host", toString code.host.isSome), ("device", toString code.device.isSome)]

end EntryPoints

/-- One procedure bound to a derived type. -/
structure Procedure where
  name : String
  /-- Bit 0: initializer, 1: elemental, 2: defined assignment, 3: FINAL of assumed rank. -/
  roles : UInt32
  /-- Bit `r`: FINAL for rank `r`. -/
  finalRanks : UInt32
  code : EntryPoints
deriving DecidableEq, Repr, Inhabited

namespace Procedure

/-- Default initialization. -/
def initializer (name : String) (code : EntryPoints) : Procedure := ⟨name, 1, 0, code⟩

/-- Finalizer of one scalar element. -/
def elementalFinal (name : String) (code : EntryPoints) : Procedure := ⟨name, 2, 1, code⟩

/-- Finalizer of whole arrays of the given ranks. -/
def finalForRanks (name : String) (ranks : UInt32) (code : EntryPoints) : Procedure :=
  ⟨name, 0, ranks, code⟩

/-- Finalizer of arrays of every rank. -/
def assumedRankFinal (name : String) (code : EntryPoints) : Procedure := ⟨name, 8, 0, code⟩

/-- Defined assignment. -/
def assignment (name : String) (code : EntryPoints) : Procedure := ⟨name, 4, 0, code⟩

/-- A binding without a role. -/
def binding (name : String) (code : EntryPoints) : Procedure := ⟨name, 0, 0, code⟩

/-- Whether the procedure initializes instances. -/
def isInitializer (p : Procedure) : Bool := p.roles.toNat.testBit 0

/-- Whether the procedure is an elemental FINAL subroutine. -/
def isElemental (p : Procedure) : Bool := p.roles.toNat.testBit 1

/-- Whether the procedure is a defined assignment. -/
def isAssignment (p : Procedure) : Bool := p.roles.toNat.testBit 2

/-- Whether the procedure is a FINAL subroutine for arrays of any rank. -/
def isAssumedRankFinal (p : Procedure) : Bool := p.roles.toNat.testBit 3

/-- The procedure finalizes at least one rank. -/
def isFinalizer (p : Procedure) : Bool :=
  p.finalRanks != 0 || p.isAssumedRankFinal

/-- The procedure finalizes arrays of rank `r`. Above the mask only assumed rank matches. -/
def isFinalForRank (p : Procedure) (r : Nat) : Bool :=
  p.isAssumedRankFinal || p.finalRanks.toNat.testBit r

/-- The procedure is called once per scalar element. -/
def isElementalFinal (p : Procedure) : Bool :=
  p.isElemental && p.finalRanks.toNat.testBit 0

end Procedure

end DerivedTypes
