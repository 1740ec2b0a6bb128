import DerivedTypes.Machine.Allocation
import DerivedTypes.Proofs.Machine.Outcome

namespace DerivedTypes

/-!
# The three ways of an allocation

An allocation makes no request (`Descriptor.allocate_of_error`), or its request is refused
(`Descriptor.allocate_of_refused`), or the request is granted and the statement goes on in a new
block (`Descriptor.allocate_of_granted`). What it does there is `Descriptor.takeBlock`.
`Descriptor.allocate_cases` tells from the end of an allocation which of the three ways it took.
-/

/-- The address of the block that the allocator makes next. -/
def Machine.nextBlock (M : Machine) : Address :=
  ⟨.heap M.memory.heap.size, 0⟩

/-- The machine after the allocator has made a new block of zeros. -/
def Machine.withBlock (M : Machine) (env : Environment) (size : Nat) : Machine :=
  (M.withMemory (M.memory.allocate size (env.place M size)).2).record
    (.allocated M.memory.heap.size size)

/-- A descriptor with its storage at an address. -/
def Descriptor.withStorage (d : Descriptor) (data : Address) : Descriptor :=
  { d with base := some data }

/-- The machine with a new block that a descriptor is about to take: the elements have no values
    yet. -/
def Machine.withBlockFor (M : Machine) (env : Environment) (size : Nat) (d : Descriptor) :
    Machine :=
  (M.withBlock env size).record (.log (.allocated size d.elementCount d.typeCode))

namespace Machine

variable {n size : Nat} {env : Environment}

/-- The allocator keeps account of a new block. -/
@[simp] theorem heapLog_withBlock (M : Machine) (env : Environment) (size : Nat) :
    (M.withBlock env size).heapLog = M.heapLog ++ [.allocated M.memory.heap.size size] := by
  simp [withBlock, Event.heapUse?]

/-- The allocator calls no procedure. -/
@[simp] theorem calls_withBlock (M : Machine) (env : Environment) (size : Nat) :
    (M.withBlock env size).calls = M.calls := by
  rw [withBlock, calls_record, calls_withMemory]
  exact List.append_nil _

/-- There is room in a new block for as many bytes as it has. -/
theorem spans_withBlock (M : Machine) (env : Environment) (le : n ≤ size) :
    (M.withBlock env size).memory.spans M.nextBlock n :=
  M.memory.spans_allocate _ le

/-- A new block is all zeros. -/
theorem byte?_withBlock {M : Machine} (le : n ≤ size) {b : Address}
    (inside : b.InSpan M.nextBlock n) :
    (M.withBlock env size).memory.byte? b = some 0 := by
  have lt := inside.2.2
  simp only [nextBlock, Nat.zero_add] at lt
  exact Memory.byte?_allocate _ inside.1 (Nat.lt_of_lt_of_le lt le)

/-- A new block changes no other region. -/
theorem region?_withBlock (M : Machine) (env : Environment) (size : Nat) {region : Region}
    (ne : region ≠ .heap M.memory.heap.size) :
    (M.withBlock env size).memory.region? region = M.memory.region? region := by
  show (M.memory.allocate size _).2.region? _ = _
  rw [Memory.region?_allocate, if_neg ne]

/-- The new block is as large as asked for. -/
theorem size_withBlock (M : Machine) (env : Environment) (size : Nat) :
    ((M.withBlock env size).memory.region? (.heap M.memory.heap.size)).map
      (·.size) = some size := by
  show ((M.memory.allocate size _).2.region? _).map _ = _
  rw [Memory.region?_allocate, if_pos rfl, Option.map_some, Block.zeroed, Array.size_replicate]

/-- The report of a new block is no use of the allocator. -/
@[simp] theorem heapLog_withBlockFor (M : Machine) (env : Environment)
    (size : Nat) (d : Descriptor) :
    (M.withBlockFor env size d).heapLog = M.heapLog ++ [.allocated M.memory.heap.size size] := by
  simp [withBlockFor, Event.heapUse?]

end Machine

namespace Descriptor

/-- Where storage lies does not matter to its size. -/
@[simp] theorem blockSize?_withStorage (d : Descriptor) (data : Address) :
    (d.withStorage data).blockSize? = d.blockSize? := rfl

/-- What an allocation does with the block that it is granted. -/
def takeBlock (env : Environment) (d : Descriptor) (data : Address) (size : Nat) :
    Run (Descriptor × Outcome) := do
  let d := d.withStorage data
  Run.log (.allocated size d.elementCount d.typeCode)
  d.setDefaults env data
  return (d, .ok ())

variable {env : Environment} {d d' bounded : Descriptor} {lower upper : List Subscript}
  {data : Address} {size : Nat} {outcome : Outcome} {M M' : Machine}

/-- A request that makes no sense does nothing. -/
theorem allocate_of_error {e : StatError} (senseless : d.allocationSize lower upper = .error e) :
    d.allocate env lower upper M = .ok (d, .error e) M := by
  unfold allocate
  rw [senseless]
  rfl

/-- A refused request leaves the variable with the new bounds. -/
theorem allocate_of_refused (asked : d.allocationSize lower upper = .ok size)
    (bounds : d.setBounds lower upper = .ok bounded) (refused : env.grants M size = false) :
    d.allocate env lower upper M =
      .ok (bounded, .error .outOfMemory) (M.record (.allocationRefused size)) := by
  unfold allocate
  rw [asked, bounds]
  show (Run.ofExcept (.ok bounded) >>= _) M = _
  rw [Run.bind_of_ok (Run.ofExcept_ok bounded M),
    Run.bind_of_ok (Run.requestBlock_of_not_grants refused)]
  rfl

/-- A granted request is followed by default initialization of the new block. -/
theorem allocate_of_granted (asked : d.allocationSize lower upper = .ok size)
    (bounds : d.setBounds lower upper = .ok bounded) (granted : env.grants M size = true) :
    d.allocate env lower upper M = bounded.takeBlock env M.nextBlock size
      (M.withBlock env size) := by
  unfold allocate
  rw [asked, bounds]
  show (Run.ofExcept (.ok bounded) >>= _) M = _
  rw [Run.bind_of_ok (Run.ofExcept_ok bounded M),
    Run.bind_of_ok (Run.requestBlock_of_grants granted)]
  rfl

/-- Once the block is reported, all that is left to do is to give the elements their default
    values. -/
theorem takeBlock_of_initialized (initialized : (d.withStorage data).setDefaults env data
      (M.record (.log (.allocated size (d.withStorage data).elementCount d.typeCode))) =
        .ok () M') :
    d.takeBlock env data size M = .ok (d.withStorage data, .ok ()) M' := by
  unfold takeBlock
  rw [Run.bind_of_ok (Run.log_apply ..)]
  exact Run.bind_of_ok initialized

/-- Once the block is there, the statement can only succeed, after the elements got their default
    values. -/
theorem eq_of_takeBlock_eq_ok (ended : d.takeBlock env data size M = .ok (d', outcome) M') :
    d' = d.withStorage data ∧ outcome = .ok () ∧
      d'.setDefaults env data (M.record (.log (.allocated size d'.elementCount d'.typeCode))) =
        .ok () M' := by
  unfold takeBlock at ended
  rw [Run.bind_of_ok (Run.log_apply ..)] at ended
  obtain ⟨_, _, initialized, ended⟩ := Run.exists_of_bind_eq_ok ended
  cases ended
  exact ⟨rfl, rfl, initialized⟩

/-- An allocation that comes to an end has made no request, or was refused, or was granted a
    block. -/
theorem allocate_cases (ended : d.allocate env lower upper M = .ok (d', outcome) M') :
    (∃ e, d.allocationSize lower upper = .error e ∧ d' = d ∧ outcome = .error e ∧ M' = M) ∨
    ∃ size bounded, d.allocationSize lower upper = .ok size ∧
      d.setBounds lower upper = .ok bounded ∧
      ((env.grants M size = false ∧ d' = bounded ∧ outcome = .error .outOfMemory ∧
          M' = M.record (.allocationRefused size)) ∨
        (env.grants M size = true ∧
          bounded.takeBlock env M.nextBlock size (M.withBlock env size) =
          .ok (d', outcome) M')) := by
  cases asked : d.allocationSize lower upper with
  | error e =>
    rw [allocate_of_error asked] at ended
    cases ended
    exact .inl ⟨e, rfl, rfl, rfl, rfl⟩
  | ok size =>
    cases bounds : d.setBounds lower upper with
    | error fault =>
      -- Without new bounds the statement does not end.
      unfold allocate at ended
      rw [asked, bounds] at ended
      cases fault <;> cases ended
    | ok bounded =>
      refine .inr ⟨size, bounded, rfl, rfl, ?_⟩
      cases granted : env.grants M size with
      | false =>
        rw [allocate_of_refused asked bounds granted] at ended
        cases ended
        exact .inl ⟨rfl, rfl, rfl, rfl⟩
      | true =>
        rw [allocate_of_granted asked bounds granted] at ended
        exact .inr ⟨rfl, ended⟩

/-- A granted request does not end with an error. -/
theorem allocate_ne_error_of_granted {e : StatError}
    (asked : d.allocationSize lower upper = .ok size) (granted : env.grants M size = true) :
    d.allocate env lower upper M ≠ .ok (d', .error e) M' := by
  intro ended
  obtain ⟨_, senseless, _⟩ | ⟨size', _, asked', _, ⟨refused, _⟩ | ⟨_, taken⟩⟩ :=
    allocate_cases ended
  · cases asked.symm.trans senseless
  · cases asked.symm.trans asked'
    cases granted.symm.trans refused
  · cases (eq_of_takeBlock_eq_ok taken).2.1

end Descriptor

end DerivedTypes
