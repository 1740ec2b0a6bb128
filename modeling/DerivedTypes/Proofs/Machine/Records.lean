import DerivedTypes.Machine.Allocation
import DerivedTypes.Proofs.Machine.Outcome

namespace DerivedTypes

/-!
# What operations record

An operation only adds to the events, in whatever way it ends. A `Run.Law` is a property of what is
added that holds of two operations one after the other if it holds of each of them. So an operation
obeys a law (`Run.Obeys`) as long as all the operations that it is made of do, and these record
single events, or none.

* `ObeysAt.bind`, `Obeys.bind`, `Obeys.forM`: operations one after the other;
* `Obeys.trace`, `Obeys.freeStorage`, `Obeys.requestBlock` and others: single operations, if the law
  allows what they record;
* `Run.Law.each`: the law that every event has a property.
-/

namespace Run

variable {α β : Type}

/-! ### Ends of operations -/

/-- The machine that an operation leaves, however it ends. -/
def leaves (x : Run α) (M : Machine) : Machine :=
  match x M with
  | .ok _ M' | .error _ M' => M'

/-- An operation that ends well leaves the machine that it ends with. -/
theorem leaves_of_ok {x : Run α} {M M' : Machine} {a : α} (h : x M = .ok a M') :
    x.leaves M = M' := by
  rw [leaves, h]

/-- So does an operation that ends with a fault. -/
theorem leaves_of_error {x : Run α} {M M' : Machine} {fault : Fault} (h : x M = .error fault M') :
    x.leaves M = M' := by
  rw [leaves, h]

/-- Whether an operation ends well. -/
def endsWell (x : Run α) (M : Machine) : Bool :=
  match x M with
  | .ok .. => true
  | .error .. => false

/-- An operation that returns something ends well. -/
theorem endsWell_of_ok {x : Run α} {M M' : Machine} {a : α} (h : x M = .ok a M') :
    x.endsWell M = true := by
  rw [endsWell, h]

/-- An operation that ends with a fault does not. -/
theorem endsWell_of_error {x : Run α} {M M' : Machine} {fault : Fault} (h : x M = .error fault M') :
    x.endsWell M = false := by
  rw [endsWell, h]

/-- After a fault nothing follows. -/
theorem bind_of_error {x : Run α} {f : α → Run β} {M M' : Machine} {fault : Fault}
    (h : x M = .error fault M') :
    (x >>= f) M = .error fault M' := by
  show EStateM.bind x f M = _
  unfold EStateM.bind
  rw [h]

/-! ### Laws -/

/-- What holds of the events that operations add to those of a machine, whether or not they end
    well. -/
structure Law where
  Holds : Machine → List Event → (well : Bool) → Prop
  nil : ∀ M well, Holds M [] well
  append : ∀ {M M₁ : Machine} {es es' : List Event} {well : Bool},
    M₁.events = M.events ++ es.toArray →
    Holds M es true → Holds M₁ es' well → Holds M (es ++ es') well

/-- A law allows an event on every machine. -/
def Law.Allows (L : Law) (event : Event) : Prop :=
  ∀ M well, L.Holds M [event] well

/-- The law that every event has a property. -/
def Law.each (P : Event → Prop) : Law where
  Holds := fun _ es _ => ∀ e ∈ es, P e
  nil := fun _ _ => List.forall_mem_nil _
  append := fun _ first second => List.forall_mem_append.mpr ⟨first, second⟩

/-- The law that every event has a property allows each event with the property. -/
theorem Law.each_allows {P : Event → Prop} {event : Event} (h : P event) :
    (Law.each P).Allows event :=
  fun _ _ => List.forall_mem_singleton.mpr h

variable {L : Law}

/-- An operation obeys a law on one machine. -/
def ObeysAt (L : Law) (x : Run α) (M : Machine) : Prop :=
  ∃ es : List Event, (x.leaves M).events = M.events ++ es.toArray ∧ L.Holds M es (x.endsWell M)

/-- An operation obeys a law on all machines. -/
def Obeys (L : Law) (x : Run α) : Prop := ∀ M, x.ObeysAt L M

/-- An operation that ends well obeys a law if the events it adds do. -/
theorem ObeysAt.of_ok {x : Run α} {M M' : Machine} {a : α} {es : List Event}
    (ended : x M = .ok a M') (events : M'.events = M.events ++ es.toArray)
    (holds : L.Holds M es true) : x.ObeysAt L M :=
  ⟨es, by rw [leaves_of_ok ended, events], by rwa [endsWell_of_ok ended]⟩

/-- An operation that records nothing obeys every law. -/
theorem ObeysAt.of_unchanged {x : Run α} {M : Machine} (same : (x.leaves M).events = M.events) :
    x.ObeysAt L M :=
  ⟨[], by simpa using same, L.nil M _⟩

/-- A sequence obeys a law if the first operation does and all those do that may follow. -/
theorem ObeysAt.bind {x : Run α} {f : α → Run β} {M : Machine} (first : x.ObeysAt L M)
    (next : ∀ a M', x M = .ok a M' → (f a).ObeysAt L M') : (x >>= f).ObeysAt L M := by
  obtain ⟨es, events, holds⟩ := first
  cases ended : x M with
  | ok a M' =>
    obtain ⟨es', events', holds'⟩ := next a M' ended
    have same : (x >>= f) M = f a M' := bind_of_ok ended
    rw [leaves_of_ok ended] at events
    rw [endsWell_of_ok ended] at holds
    refine ⟨es ++ es', ?_, ?_⟩
    · rw [leaves, same, ← leaves, events', events]
      simp
    · rw [endsWell, same, ← endsWell]
      exact L.append events holds holds'
  | error fault M' =>
    have same : (x >>= f) M = .error fault M' := bind_of_error ended
    refine ⟨es, ?_, ?_⟩
    · rw [leaves_of_error same, ← events, leaves_of_error ended]
    · rw [endsWell_of_error same, ← endsWell_of_error ended]
      exact holds

namespace Obeys

/-- Doing nothing. -/
theorem pure (a : α) : Obeys L (Pure.pure a : Run α) := fun _ => .of_unchanged rfl

/-- One operation after the other. -/
theorem bind {x : Run α} {f : α → Run β} (first : x.Obeys L) (next : ∀ a, (f a).Obeys L) :
    (x >>= f).Obeys L :=
  fun M => (first M).bind fun a M' _ => next a M'

/-- An operation for each item. -/
theorem forM {items : List α} {f : α → Run Unit} (each : ∀ x ∈ items, (f x).Obeys L) :
    (items.forM f).Obeys L := by
  rw [List.forM_eq_forM]
  induction items with
  | nil => exact pure ()
  | cons x rest ih =>
    rw [List.forM_cons]
    exact (each x List.mem_cons_self).bind fun _ => ih fun y mem =>
      each y (List.mem_cons_of_mem _ mem)

/-! ### Operations without events -/

/-- Looking at the machine. -/
theorem get : Obeys L (MonadState.get : Run Machine) := fun _ => .of_unchanged rfl

/-- A fault. -/
theorem throw (fault : Fault) :
    (MonadExcept.throw fault : Run α).Obeys L := fun _ => .of_unchanged rfl

/-- Undefined behaviour is a fault as well. -/
theorem undefined (cause : Undefined) : (Run.undefined cause : Run α).Obeys L := throw _

/-- Asking how many releases may lead to each other. -/
theorem ownershipDepth : Run.ownershipDepth.Obeys L := fun _ => .of_unchanged rfl

/-- A store, whether or not there is room for it. -/
theorem store (a : Address) (n : Nat) (change : Memory → Memory) :
    (Run.store a n change).Obeys L := by
  refine fun M => .of_unchanged ?_
  unfold leaves Run.store
  by_cases fits : (n == 0 || M.memory.spans a n) = true
  · rw [if_pos fits]
  · rw [if_neg fits]

/-- Reading a descriptor. -/
theorem readDescriptor (a : Address) : (Run.readDescriptor a).Obeys L := by
  refine get.bind fun M => ?_
  dsimp only
  split
  · exact undefined _
  · split
    · exact pure _
    · exact undefined _

/-- Reading a descriptor with its base. -/
theorem readOwner (a : Address) : (Run.readOwner a).Obeys L := by
  refine get.bind fun M => ?_
  dsimp only
  split
  · exact undefined _
  · split
    · exact pure _
    · exact (readDescriptor a).bind fun d => pure _

/-! ### Operations with single events -/

/-- An operation that ends well with one event. -/
theorem of_event {x : Run α} {event : Event} (allowed : L.Allows event)
    (ended : ∀ M, ∃ a M', x M = .ok a M' ∧ M'.events = M.events.push event) : x.Obeys L := by
  intro M
  obtain ⟨a, M', ran, events⟩ := ended M
  have events : M'.events = M.events ++ [event].toArray := by simpa using events
  exact .of_ok ran events (allowed M true)

/-- A log entry that is allowed. -/
theorem log {entry : LogRecord} (allowed : L.Allows (.log entry)) : (Run.log entry).Obeys L :=
  of_event allowed fun M => ⟨(), _, log_apply entry M, rfl⟩

/-- A trace that is allowed. -/
theorem trace (env : Environment) {step : Trace} (allowed : L.Allows (.trace step)) :
    (Run.trace env step).Obeys L := by
  unfold Run.trace
  split
  · exact of_event allowed fun M => ⟨(), _, rfl, rfl⟩
  · exact pure ()

/-- A fatal error that is allowed. -/
theorem fatal {error : FatalError} (allowed : L.Allows (.log (.fatal error.report))) :
    (Run.fatal error : Run α).Obeys L :=
  (log allowed).bind fun _ => throw _

/-- A call that is allowed. -/
theorem call (env : Environment) (p : Procedure) (entry : EntryPoint) {argument : Argument}
    (allowed : L.Allows (.call p env.context argument)) :
    (do let _ ← Run.call env p entry argument : Run Unit).Obeys L :=
  bind (of_event allowed fun M => ⟨_, _, call_apply env p entry argument M, rfl⟩) fun _ => pure ()

/-- Freeing a block, if that is allowed. -/
theorem freeBlock (a : Address) {size : Nat} (allowed : ∀ block, L.Allows (.freed block size)) :
    (Run.freeBlock a size).Obeys L := by
  refine get.bind fun M => ?_
  cases M.memory.blockAt? a with
  | none => exact undefined _
  | some block => exact of_event (allowed block) fun N => ⟨(), _, rfl, rfl⟩

/-- Freeing storage, if log entries and frees are allowed. -/
theorem freeStorage (d : Descriptor) (data : Address) (logs : ∀ entry, L.Allows (.log entry))
    (frees : ∀ block size, L.Allows (.freed block size)) : (Run.freeStorage d data).Obeys L := by
  unfold Run.freeStorage
  cases d.blockSize? with
  | none => exact log (logs _)
  | some size => exact (log (logs _)).bind fun _ => freeBlock data fun block => frees block size

/-- A request for a block, if both answers are allowed. -/
theorem requestBlock (env : Environment) {size : Nat}
    (allowed : ∀ block, L.Allows (.allocated block size))
    (refused : L.Allows (.allocationRefused size)) : (Run.requestBlock env size).Obeys L := by
  refine get.bind fun M => ?_
  dsimp only
  split
  · exact Obeys.bind (fun _ => .of_unchanged rfl) fun block =>
      (of_event (allowed block) fun N => ⟨(), _, rfl, rfl⟩).bind fun _ => pure _
  · exact (of_event refused fun N => ⟨(), _, rfl, rfl⟩).bind fun _ => pure _

/-- A result, or the fault in its place. -/
theorem ofExcept (result : Except Fault α) (logs : ∀ entry, L.Allows (.log entry)) :
    (Run.ofExcept result).Obeys L := by
  unfold Run.ofExcept
  split
  · exact pure _
  · exact fatal (logs _)
  · exact throw _

end Obeys

end Run

end DerivedTypes
