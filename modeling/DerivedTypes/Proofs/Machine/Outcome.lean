import DerivedTypes.Machine.Visit
import DerivedTypes.Proofs.Memory.Frame

namespace DerivedTypes

/-!
# How operations end

`Run.bind_of_ok` and `Run.exists_of_bind_eq_ok` take a sequence of operations apart, and there is a
lemma for each operation on memory that says how it ends. Of the events two extracts matter:

* `Machine.heapLog`: blocks that were allocated and freed;
* `Machine.calls`: procedures that were called, with their arguments.
-/

/-! ### Extracts of the events -/

/-- What the allocator did. -/
inductive HeapUse where
  | allocated (block size : Nat)
  | freed (block size : Nat)
deriving DecidableEq, Repr

/-- What the allocator did at an event, if it did anything. -/
def Event.heapUse? : Event → Option HeapUse
  | .allocated block size => some (.allocated block size)
  | .freed block size => some (.freed block size)
  | _ => none

/-- The procedure called at an event, with its argument. -/
def Event.call? : Event → Option (Procedure × Argument)
  | .call procedure _ argument => some (procedure, argument)
  | _ => none

namespace Machine

/-- What the allocator did so far. -/
def heapLog (M : Machine) : List HeapUse :=
  M.events.toList.filterMap Event.heapUse?

/-- The calls of procedures so far, with their arguments. -/
def calls (M : Machine) : List (Procedure × Argument) :=
  M.events.toList.filterMap Event.call?

/-- The machine after one more event. -/
def record (M : Machine) (event : Event) : Machine :=
  { M with events := M.events.push event }

/-- The machine after more events. -/
def recordAll (M : Machine) (events : List Event) : Machine :=
  { M with events := M.events ++ events.toArray }

/-- The machine with another memory. -/
def withMemory (M : Machine) (m : Memory) : Machine :=
  { M with memory := m }

variable (M : Machine)

/-- An event does not change memory. -/
@[simp] theorem memory_record (event : Event) : (M.record event).memory = M.memory := rfl

/-- Of an event, the heap log keeps what it says about the heap. -/
@[simp] theorem heapLog_record (event : Event) :
    (M.record event).heapLog = M.heapLog ++ event.heapUse?.toList := by
  unfold heapLog record
  rw [Array.toList_push, List.filterMap_append]
  cases h : event.heapUse? <;> simp [h]

/-- Of an event, the calls keep the call. -/
@[simp] theorem calls_record (event : Event) :
    (M.record event).calls = M.calls ++ event.call?.toList := by
  unfold calls record
  rw [Array.toList_push, List.filterMap_append]
  cases h : event.call? <;> simp [h]

/-- Events do not change memory. -/
@[simp] theorem memory_recordAll (events : List Event) :
    (M.recordAll events).memory = M.memory := rfl

/-- Of several events, the heap log keeps what they say about the heap. -/
@[simp] theorem heapLog_recordAll (events : List Event) :
    (M.recordAll events).heapLog = M.heapLog ++ events.filterMap Event.heapUse? := by
  simp [heapLog, recordAll]

/-- Of several events, the calls keep the calls. -/
@[simp] theorem calls_recordAll (events : List Event) :
    (M.recordAll events).calls = M.calls ++ events.filterMap Event.call? := by
  simp [calls, recordAll]

/-- No events change nothing. -/
@[simp] theorem recordAll_nil : M.recordAll [] = M := by
  simp [recordAll]

/-- Events are recorded in order. -/
theorem recordAll_append (first second : List Event) :
    M.recordAll (first ++ second) = (M.recordAll first).recordAll second := by
  simp [recordAll, Array.append_assoc]

/-- A single event is a list of one. -/
theorem record_eq_recordAll (event : Event) : M.record event = M.recordAll [event] := by
  simp [record, recordAll]

/-- The machine has the new memory. -/
@[simp] theorem memory_withMemory (m : Memory) : (M.withMemory m).memory = m := rfl

/-- A new memory is not in the heap log. -/
@[simp] theorem heapLog_withMemory (m : Memory) : (M.withMemory m).heapLog = M.heapLog := rfl

/-- A new memory is not among the calls. -/
@[simp] theorem calls_withMemory (m : Memory) : (M.withMemory m).calls = M.calls := rfl

end Machine

/-- The events of a trace. -/
def Environment.traceEvents (env : Environment) (step : Trace) : List Event :=
  if env.traces then [.trace step] else []

/-- A trace is no call. -/
@[simp] theorem Environment.filterMap_call?_traceEvents (env : Environment) (step : Trace) :
    (env.traceEvents step).filterMap Event.call? = [] := by
  unfold traceEvents
  split <;> rfl

/-- A trace leaves the heap alone. -/
@[simp] theorem Environment.filterMap_heapUse?_traceEvents (env : Environment) (step : Trace) :
    (env.traceEvents step).filterMap Event.heapUse? = [] := by
  unfold traceEvents
  split <;> rfl

/-- An environment whose allocator grants nothing. -/
def Environment.withoutHeap (context : ExecutionContext) (traces : Bool)
    (code : EntryPoint → Argument → Memory → Argument × Memory) : Environment where
  toAllocator := .exhausted
  context := context
  traces := traces
  code := code

/-- Procedures leave memory as it is. -/
def Environment.Inert (env : Environment) : Prop :=
  ∀ entry argument m, (env.code entry argument m).2 = m

namespace Run

/-! ### Sequences -/

variable {α β : Type}

/-- After an operation that ends well the next one goes on. -/
theorem bind_of_ok {x : Run α} {f : α → Run β} {M M' : Machine} {a : α} (h : x M = .ok a M') :
    (x >>= f) M = f a M' := by
  show EStateM.bind x f M = _
  unfold EStateM.bind
  rw [h]

/-- A sequence that ends well does so step by step. -/
theorem exists_of_bind_eq_ok {x : Run α} {f : α → Run β} {M M' : Machine} {b : β}
    (h : (x >>= f) M = .ok b M') : ∃ a M₁, x M = .ok a M₁ ∧ f a M₁ = .ok b M' := by
  change EStateM.bind x f M = _ at h
  unfold EStateM.bind at h
  split at h
  · next a M₁ first => exact ⟨a, M₁, first, h⟩
  · cases h

/-- After a first item that ends well the others follow. -/
theorem forM_cons_of_ok {f : α → Run Unit} {x : α} {rest : List α} {M M' : Machine}
    (h : f x M = .ok () M') : forM (x :: rest) f M = forM rest f M' := by
  rw [List.forM_cons]
  exact bind_of_ok h

/-! ### Events -/

/-- A log entry is recorded. -/
theorem log_apply (entry : LogRecord) (M : Machine) :
    log entry M = .ok () (M.record (.log entry)) := rfl

/-- A trace records what the tracing of the environment makes of it. -/
theorem trace_apply (env : Environment) (step : Trace) (M : Machine) :
    trace env step M = .ok () (M.recordAll (env.traceEvents step)) := by
  unfold trace Environment.traceEvents
  by_cases traced : env.traces
  · rw [if_pos traced, if_pos traced, ← Machine.record_eq_recordAll]
    rfl
  · rw [if_neg traced, if_neg traced, Machine.recordAll_nil]
    rfl

/-- A trace changes nothing but the trace. -/
theorem exists_trace (env : Environment) (step : Trace) (M : Machine) :
    ∃ M', trace env step M = .ok () M' ∧ M'.memory = M.memory ∧ M'.heapLog = M.heapLog ∧
      M'.calls = M.calls := by
  exact ⟨_, trace_apply env step M, rfl, by simp, by simp⟩

/-! ### Memory -/

variable {M : Machine} {a : Address} {n : Nat}

/-- A store where there is room for it changes memory. -/
theorem store_of_fits {change : Memory → Memory} (fits : n = 0 ∨ M.memory.spans a n) :
    store a n change M = .ok () (M.withMemory (change M.memory)) := by
  unfold store
  rcases fits with rfl | fits
  · rfl
  · rw [if_pos (by simp [fits])]
    rfl

/-- A store that comes to an end has changed nothing but memory. -/
theorem eq_of_store {change : Memory → Memory} {M' : Machine}
    (ended : store a n change M = .ok () M') :
    M' = M.withMemory M'.memory := by
  unfold store at ended
  split at ended
  · cases ended
    rfl
  · cases ended

/-- So does a store of bytes. -/
theorem writeBytes_of_fits {bytes : List UInt8}
    (fits : bytes.length = 0 ∨ M.memory.spans a bytes.length) :
    writeBytes a bytes M = .ok () (M.withMemory (M.memory.write a bytes)) :=
  store_of_fits fits

/-- So does taking a base away. -/
theorem clearBase_of_fits (fits : M.memory.spans a 8) :
    clearBase a M = .ok () (M.withMemory (M.memory.clearBase a)) :=
  store_of_fits (.inr fits)

/-- So does a store of a descriptor. -/
theorem writeDescriptor_of_fits {d : Descriptor} (fits : M.memory.spans a descriptorBytes) :
    writeDescriptor a d M = .ok () (M.withMemory (M.memory.writeDescriptor a d)) :=
  store_of_fits (.inr fits)

/-- What is read is the machine as it is. -/
theorem get_bind_apply {f : Machine → Run α} : (get >>= f : Run α) M = f M M := rfl

/-- A descriptor that is there is read. -/
theorem readDescriptor_of_fits {d : Descriptor} (fits : M.memory.spans a descriptorBytes)
    (there : M.memory.descriptor? a = some d) : readDescriptor a M = .ok d M := by
  unfold readDescriptor
  rw [get_bind_apply, fits, there]
  rfl

/-- A descriptor that owns no storage has no owner. -/
theorem readOwner_of_not_owns (fits : M.memory.spans a Memory.ownershipBytes)
    (idle : M.memory.ownsStorage a = false) : readOwner a M = .ok none M := by
  unfold readOwner
  rw [get_bind_apply, fits, idle]
  rfl

/-- A descriptor that owns storage is read together with its base. -/
theorem readOwner_of_owns {d : Descriptor} (fits : M.memory.spans a descriptorBytes)
    (owns : M.memory.ownsStorage a = true) (there : M.memory.descriptor? a = some d) :
    readOwner a M = .ok (d.base.map (d, ·)) M := by
  have wide : M.memory.spans a Memory.ownershipBytes := Memory.spans_of_le fits (by decide)
  unfold readOwner
  rw [get_bind_apply, wide, owns]
  exact bind_of_ok (readDescriptor_of_fits fits there)

/-- What is read at an address is the descriptor there. -/
theorem descriptor?_of_readDescriptor {d : Descriptor} {M' : Machine}
    (h : readDescriptor a M = .ok d M') :
    M' = M ∧ M.memory.descriptor? a = some d := by
  unfold readDescriptor at h
  rw [get_bind_apply] at h
  cases fits : M.memory.spans a descriptorBytes with
  | false =>
    rw [fits] at h
    cases h
  | true =>
    rw [fits] at h
    cases there : M.memory.descriptor? a with
    | none =>
      rw [there] at h
      cases h
    | some found =>
      rw [there] at h
      cases h
      exact ⟨rfl, rfl⟩

/-- To look for an owner changes nothing. An owner that is found is the descriptor at the address,
    with its base. -/
theorem eq_of_readOwner {owner : Option (Descriptor × Address)} {M' : Machine}
    (h : readOwner a M = .ok owner M') :
    M' = M ∧ ∀ d data, owner = some (d, data) →
      M.memory.descriptor? a = some d ∧ M.memory.ownsStorage a = true ∧ d.base = some data := by
  unfold readOwner at h
  rw [get_bind_apply] at h
  cases fits : M.memory.spans a Memory.ownershipBytes with
  | false =>
    rw [fits] at h
    cases h
  | true =>
    rw [fits] at h
    cases owns : M.memory.ownsStorage a with
    | false =>
      rw [owns] at h
      cases h
      exact ⟨rfl, nofun⟩
    | true =>
      rw [owns] at h
      obtain ⟨d', M₁, read, found⟩ := exists_of_bind_eq_ok h
      obtain ⟨same, rfl⟩ := EStateM.Result.ok.inj found
      obtain ⟨rfl, there⟩ := descriptor?_of_readDescriptor read
      refine ⟨rfl, fun d data some => ?_⟩
      obtain ⟨_, base, same⟩ := Option.map_eq_some_iff.mp (same.trans some)
      cases same
      exact ⟨there, rfl, base⟩

/-! ### Procedures -/

/-- The machine after a call. -/
theorem call_apply (env : Environment) (p : Procedure) (entry : EntryPoint) (argument : Argument)
    (M : Machine) :
    call env p entry argument M =
      .ok (env.code entry argument M.memory).1
        ((M.record (.call p env.context argument)).withMemory
          (env.code entry argument M.memory).2) :=
  rfl

/-! ### Blocks -/

/-- A request that is granted takes a new block. -/
theorem requestBlock_of_grants {env : Environment} {size : Nat} (granted : env.grants M size) :
    requestBlock env size M =
      .ok (some M.memory.heap.size)
        ((M.withMemory (M.memory.allocate size (env.place M size)).2).record
          (.allocated M.memory.heap.size size)) := by
  unfold requestBlock
  rw [get_bind_apply, if_pos granted]
  rfl

/-- A request that is refused is recorded. -/
theorem requestBlock_of_not_grants {env : Environment} {size : Nat}
    (refused : env.grants M size = false) :
    requestBlock env size M = .ok none (M.record (.allocationRefused size)) := by
  unfold requestBlock
  rw [get_bind_apply, if_neg (by simp [refused])]
  rfl

/-- A live block is given back. -/
theorem freeBlock_of_live {block size : Nat} {bytes : Block}
    (live : M.memory.region? (.heap block) = some bytes) :
    freeBlock ⟨.heap block, 0⟩ size M =
      .ok () ((M.withMemory (M.memory.release block)).record (.freed block size)) := by
  unfold freeBlock
  rw [get_bind_apply, Memory.blockAt?_of_live live]
  rfl

/-! ### Results -/

/-- A result is returned. -/
theorem ofExcept_ok (a : α) (M : Machine) : ofExcept (.ok a) M = .ok a M := rfl

end Run

end DerivedTypes
