import DerivedTypes.Proofs.DefaultValue.BlankSlots
import DerivedTypes.Proofs.Locality.Teardown
import DerivedTypes.Proofs.Ownership.Deallocation

namespace DerivedTypes

/-!
# Independent instances

Default initialization and teardown look at nothing but the instance, the blocks that it owns, and
the tables, as long as procedures keep to what they are given. So instances that have nothing in
common do not notice each other: it does not matter which of two operations on them comes first.

* `InstanceOperation.exists_actsOn`: an operation acts on the zone of its instance and on the blocks
  that the instance owns;
* `InstanceOperation.run_commute`: operations on independent instances may change places.
-/

/-- What is done with an instance as a whole. -/
inductive InstanceOperation where
  /-- The instance gets its default value. -/
  | setDefault
  /-- The instance is torn down. -/
  | destroy (finalize : Bool)
deriving DecidableEq, Repr

namespace InstanceOperation

/-- Runs an operation on the instance at an address. -/
def run (env : Environment) (ty : DerivedType) (a : Address) : InstanceOperation → Run Unit
  | setDefault => ty.setDefault env a
  | destroy finalize => ty.destroyScalar env a finalize

/-- The descriptors in an instance own the blocks of a forest, when an operation comes. A default
    value is given to an instance that owns nothing, whatever its bytes are; before a teardown,
    descriptors have been established. -/
def Owns (env : Environment) (m : Memory) (ty : DerivedType) (a : Address) (f : Forest) :
    InstanceOperation → Prop
  | setDefault => f = .nil
  | destroy _ => m.Ready (Descriptor.Confined env) (ty.slots a) f

/-- An operation may be run on the instance at an address: the tables of its type are sound, the
    instance is there, and procedures are confined to what they are given, also those for storage
    that the instance owns. -/
structure Allowed (env : Environment) (m : Memory) (ty : DerivedType) (a : Address) (f : Forest)
    (op : InstanceOperation) : Prop where
  sound : ty.Throughout DerivedType.TeardownSound
  confined : ty.Throughout (DerivedType.Confined env)
  room : m.Admits a ty.size.toNat
  owns : op.Owns env m ty a f

variable {env env' : Environment} {ty ty' : DerivedType} {a a' : Address} {f f' : Forest}
  {op op' : InstanceOperation}

/-- An operation acts on its instance and on the blocks that the instance owns. -/
theorem Allowed.exists_actsOn {m : Memory} (h : op.Allowed env m ty a f) :
    ∃ es m', Run.ActsOn (ty.zone a) f.numbers m (op.run env ty a) es m' := by
  cases op with
  | setDefault =>
    obtain ⟨m', acts⟩ := DerivedType.exists_acts_setDefault h.sound h.confined a h.room
    exact ⟨_, m', acts.on subset_rfl⟩
  | destroy finalize =>
    exact DerivedType.exists_acts_destroyScalar h.sound h.confined h.room h.owns finalize

/-- Two operations on instances that have nothing in common, neither among their bytes nor among the
    blocks that they own, end well in either order, even if their callers differ in context and
    tracing. Both orders leave the same memory, so the same blocks are live, and each operation adds
    the same events whether it comes first or second. -/
theorem run_commute {M : Machine} (h : op.Allowed env M.memory ty a f)
    (h' : op'.Allowed env' M.memory ty' a' f')
    (independent : (ty.zone a).Independent f.numbers (ty'.zone a') f'.numbers) :
    ∃ (first second both both' : Machine) (es es' : List Event),
      op.run env ty a M = .ok () first ∧ op'.run env' ty' a' first = .ok () both ∧
      op'.run env' ty' a' M = .ok () second ∧ op.run env ty a second = .ok () both' ∧
      both'.memory = both.memory ∧ both'.memory.liveBlocks = both.memory.liveBlocks ∧
      first.events = M.events ++ es.toArray ∧ both'.events = second.events ++ es.toArray ∧
      second.events = M.events ++ es'.toArray ∧ both.events = first.events ++ es'.toArray := by
  obtain ⟨es, m₁, acts⟩ := h.exists_actsOn
  obtain ⟨es', m₂, acts'⟩ := h'.exists_actsOn
  obtain ⟨n₁, n₂, n, ran, ranSecond, ran', ranSecond'⟩ := acts.commute acts' independent
  refine ⟨_, _, _, _, es, es', ran, ranSecond, ran', ranSecond', rfl, rfl, rfl, ?_, rfl, ?_⟩
  · exact congrArg Machine.events (Machine.recordAll_append M es' es)
  · exact congrArg Machine.events (Machine.recordAll_append M es es')

end InstanceOperation

/-! ### A label beside a list -/

namespace LinkedList

/-- The procedures of nodes are confined, because there are none. -/
theorem confined_node (env : Environment) : node.Throughout (DerivedType.Confined env) :=
  .of_plain (.of_no_procedures rfl _) plain_node

/-- The procedures of lists are confined as well. -/
theorem confined_list (env : Environment) (block : Nat) : (list block).Confined env := by
  intro _ ty named
  obtain rfl := Option.some.inj ((derivedType?_list block).symm.trans named)
  exact confined_node env

end LinkedList

namespace LabelledList

/-- Memory whose only buffer is one for a label. -/
def withBuffer (m : Memory) : Memory := { m with buffers := #[.zeroed 8] }

/-- A buffer places no region anew. -/
theorem placement_withBuffer (m : Memory) : (withBuffer m).placement = m.placement := rfl

/-- A buffer changes no table. -/
theorem tables_withBuffer (m : Memory) : (withBuffer m).tables = m.tables := rfl

/-- A buffer changes no block. -/
theorem region?_withBuffer (m : Memory) (block : Nat) :
    (withBuffer m).region? (.heap block) = m.region? (.heap block) :=
  rfl

/-- Memory with a list of two nodes on the heap, and with a buffer for a label. -/
def memory : Memory := withBuffer LinkedList.memory

/-- The first node still owns the second one. -/
theorem ready {P : Descriptor → Prop} (lists : ∀ block, P (LinkedList.list block))
    (last : P .zeroed) :
    memory.Ready P (LinkedList.node.slots ⟨.heap 0, 0⟩) (.cons 1 456 .nil .nil) := by
  refine (LinkedList.ready_of lists last).congr (placement_withBuffer _)
    (tables_withBuffer _) (fun s mem => ?_)
    fun b _ => region?_withBuffer _ b
  rw [LinkedList.slots_node, List.mem_singleton] at mem
  rw [mem]
  exact region?_withBuffer _ 0

/-- The initializer of a label stores one byte, and there is no finalizer. -/
theorem confined_label : Shelf.label.Throughout (DerivedType.Confined Shelf.environment) := by
  have noFinalizer : ∀ p ∈ Shelf.label.procedures, p.isFinalizer = false := by decide
  refine .of_plain ⟨fun _ _ _ a m room => ?_, fun p mem final => ?_, fun p mem final => ?_⟩
    (by decide)
  · have fits : m.Admits a [(7 : UInt8)].length :=
      Memory.Admits.sub (i := 0) room (show 0 + 1 ≤ Shelf.label.size.toNat by decide)
    have part : Location.span a 1 ⊆ (Shelf.label.zone a).writable := fun l mem =>
      ⟨Location.span_subset (show 0 + 1 ≤ Shelf.label.size.toNat by decide) mem, fun s slot => by
        rw [show (Shelf.label.zone a).slots = [] from Shelf.slots_label a] at slot
        cases slot⟩
    exact ⟨(m.changes_write fits).mono part, fun _ same =>
      same.write (Shelf.label.zone a).extent_mem_readable fits⟩
  · simp [noFinalizer p mem] at final
  · simp [noFinalizer p mem] at final

/-- The teardown of the list is allowed. -/
theorem destroy_allowed :
    (InstanceOperation.destroy true).Allowed Shelf.environment memory LinkedList.node
    ⟨.heap 0, 0⟩ (.cons 1 456 .nil .nil) where
  sound := LinkedList.throughout_node
  confined := LinkedList.confined_node _
  room := by
    have ready : memory.Ready (fun _ => True) (LinkedList.node.slots ⟨.heap 0, 0⟩)
        (.cons 1 456 .nil .nil) :=
      ready (fun _ => trivial) trivial
    exact .inr (ready.spans _ LinkedList.first_mem_slots)
  owns := ready (LinkedList.confined_list _) fun owner => by cases owner

/-- Default initialization of the label is allowed. -/
theorem setDefault_allowed :
    InstanceOperation.setDefault.Allowed Shelf.environment memory Shelf.label
      ⟨.buffer 0, 0⟩ .nil where
  sound :=
    .of_plain ⟨.of_ordered (by decide) (by decide) (by decide), .of_plain (by decide)⟩ (by decide)
  confined := confined_label
  room := .inr (Memory.spans_iff.mpr ⟨.zeroed 8, rfl, by decide⟩)
  owns := rfl

/-- The label has nothing in common with the list. -/
theorem independent :
    (LinkedList.node.zone ⟨.heap 0, 0⟩).Independent [1] (Shelf.label.zone ⟨.buffer 0, 0⟩) [] where
  apart := Address.apart_of_region_ne _ _ (by decide)
  distinct := by decide
  outside := by simp
  outside' := by simp [DerivedType.zone]

end LabelledList

/-- The teardown of a list frees its second node, and a label gets a 7, in either order. -/
theorem InstanceOperation.run_labelledList_commute :
    ∃ (first second both both' : Machine) (es es' : List Event),
      (destroy true).run Shelf.environment LinkedList.node ⟨.heap 0, 0⟩ ⟨LabelledList.memory, #[]⟩ =
      .ok () first ∧
      setDefault.run Shelf.environment Shelf.label ⟨.buffer 0, 0⟩ first = .ok () both ∧
      setDefault.run Shelf.environment Shelf.label ⟨.buffer 0, 0⟩ ⟨LabelledList.memory, #[]⟩ =
      .ok () second ∧
      (destroy true).run Shelf.environment LinkedList.node ⟨.heap 0, 0⟩ second = .ok () both' ∧
      both'.memory = both.memory ∧ both'.memory.liveBlocks = both.memory.liveBlocks ∧
      first.events = es.toArray ∧ both'.events = second.events ++ es.toArray ∧
      second.events = es'.toArray ∧ both.events = first.events ++ es'.toArray := by
  obtain ⟨first, second, both, both', es, es', ran⟩ := run_commute (M := ⟨LabelledList.memory, #[]⟩)
    LabelledList.destroy_allowed LabelledList.setDefault_allowed LabelledList.independent
  simp only [Array.empty_append] at ran
  exact ⟨first, second, both, both', es, es', ran⟩

end DerivedTypes
