import DerivedTypes.Machine.Basic

namespace DerivedTypes

/-!
# Recorded procedures

A stand-in for the code of bound procedures: a list of stores relative to the argument. Stores that
do not fit the region are left out.
-/

/-- What a recorded procedure does. -/
structure Recording where
  /-- It overwrites the descriptor that it receives. -/
  clobbers : Bool
  /-- Bytes stored at offsets. -/
  writes : List (Nat × List UInt8)
  /-- A number added to the byte at an offset. -/
  increment : Option (Nat × Nat)
deriving Repr, Inhabited

namespace Recording

/-- Does nothing. -/
def idle : Recording := ⟨false, [], none⟩

/-- The address that offsets count from. -/
def origin : Argument → Option Address
  | .scalar a => some a
  | .array view => view.base

/-- The argument after the call. -/
def clobber (r : Recording) : Argument → Argument
  | .scalar a => .scalar a
  | .array view =>
    if r.clobbers then
      .array { view with base := none, elementSize := 0, rank := 0, addendumType := none }
    else .array view

/-- Stores bytes that fit the region of an address. -/
def writeIfFits (m : Memory) (a : Address) (bytes : List UInt8) : Memory :=
  if m.spans a bytes.length then m.write a bytes else m

/-- Adds to the byte at an address, if there is one. -/
def addIfFits (m : Memory) (a : Address) (n : Nat) : Memory :=
  match m.byte? a with
  | none => m
  | some value => m.write a [value + .ofNat n]

/-- The argument and memory after a call. -/
def run (r : Recording) (argument : Argument) (m : Memory) : Argument × Memory :=
  match origin argument with
  | none => (r.clobber argument, m)
  | some a =>
    let m := r.writes.foldl (fun m (offset, bytes) => writeIfFits m (a + offset) bytes) m
    let m := match r.increment with
      | none => m
      | some (offset, n) => addIfFits m (a + offset) n
    (r.clobber argument, m)

end Recording

/-- The environment in which the code at entry point `i` is the `i`-th recording, and the allocator
    grants every request up to a limit. -/
def Environment.ofRecordings (context : ExecutionContext) (traces : Bool)
    (recordings : Array Recording) (heapLimit : Nat) : Environment where
  toAllocator := .bump heapLimit
  context := context
  traces := traces
  code := fun entry argument m => (recordings[entry.index]?.getD .idle).run argument m

end DerivedTypes
