import DerivedTypes.Machine.Allocation
import DerivedTypes.Proofs.Teardown.Release

namespace DerivedTypes

/-!
# Deallocation of ownership trees

A deallocation frees the block of a descriptor and all blocks owned from inside it, as long as
procedures leave memory alone.

* `Descriptor.exists_deallocate_of_prepared`: it tears down what the descriptor stores and gives
  back its block;
* `Descriptor.deallocate_frees_tree`: every block of the tree is freed once, after all blocks inside
  it, and nothing else changes.
-/

/-- A machine comes out of another by freeing the blocks of a forest, each one after all blocks
    inside it, and by changing at most some descriptors. -/
def Machine.Releases (M M' : Machine) (f : Forest) (slots : List Address) : Prop :=
  ∃ freed : List (Nat × Nat),
    M'.heapLog = M.heapLog ++ freed.map (fun b => HeapUse.freed b.1 b.2) ∧
    freed.Perm f.blocks ∧ f.Ordered freed ∧ M.memory.Freed M'.memory f.numbers slots

open TeardownStep

namespace Descriptor

variable {env : Environment} {P : Descriptor → Prop} {Q : Address → Prop} {d : Descriptor}
  {tree inside : Forest} {block size : Nat} {M : Machine}

/-- A descriptor that owns a tree has prepared steps for what lies inside its block. -/
theorem exists_prepared (context : ExecutionContext) {m : Memory} (owner : d.isOwner = true)
    (finalize : Bool) (owns : m.Owns P [d] tree) (distinct : tree.Distinct)
    (fine : ∀ s, m.Reaches d.slots s → Q s) :
    ∃ block size inside, m.Stores d block size ∧
      Prepared context m Q (d.storageSteps context finalize) inside ∧
      (∀ t ∈ released (d.storageSteps context finalize), t.region = .heap block) ∧
      tree.Similar (.cons block size inside .nil) := by
  obtain ⟨block, size, contained, rfl, backs, ready⟩ := owns.exists_ready owner distinct
  have order := d.released_arraySteps context backs.typed backs.base finalize
  obtain ⟨inside, prepared, similar⟩ :=
    ready.exists_prepared order (d.resolved_arraySteps context backs.typed _ finalize) fine
  refine ⟨block, size, inside, backs.stores, ?_, fun t mem => ?_, similar.node block size .nil⟩
  · rw [backs.stores.storageSteps]
    exact prepared
  · rw [backs.stores.storageSteps] at mem
    exact (backs.slot_inside (order.mem_iff.mp mem)).1

/-- Without storage of its own, a deallocation fails before it does anything. -/
theorem deallocate_of_not_owner (idle : d.isOwner = false) (finalize : Bool) :
    d.deallocate env finalize M =
      .ok (d, .error (if d.isAllocatable then .notAllocated else .notAllocatable)) M := by
  unfold deallocate
  cases allocatable : d.isAllocatable with
  | false => rfl
  | true =>
    have null : d.base = none := by simpa [isOwner, allocatable, isAllocated] using idle
    rw [null]
    rfl

/-- After the teardown of what a descriptor stores, a deallocation gives back the block. -/
theorem deallocate_of_destroyed {finalize : Bool} (stores : M.memory.Stores d block size)
    {contents : List Event} {m' : Memory}
    (destroyed : d.destroyElements env (some ⟨.heap block, 0⟩) finalize M =
      .ok () ((M.recordAll contents).withMemory m'))
    (still : m'.Stores d block size) :
    d.deallocate env finalize M = .ok ({ d with base := none }, .ok ())
      ((M.recordAll (contents ++ d.freeEvents)).withMemory (m'.release block)) := by
  have allocatable := (Bool.and_eq_true_iff.mp stores.owner).1
  have given : Run.freeStorage d ⟨.heap block, 0⟩ ((M.recordAll contents).withMemory m') =
      .ok () (((M.recordAll contents).recordAll d.freeEvents).withMemory (m'.release block)) :=
    Run.freeStorage_of_stores (by exact still)
  unfold deallocate
  rw [allocatable, stores.base, Machine.recordAll_append]
  exact (Run.bind_of_ok destroyed).trans (Run.bind_of_ok given)

/-- A deallocation tears down what the descriptor stores and gives back its block. -/
theorem exists_deallocate_of_prepared (inert : env.Inert) (finalize : Bool)
    (stores : M.memory.Stores d block size)
    (prepared : Prepared env.context M.memory Q (d.storageSteps env.context finalize) inside)
    (apart : block ∉ inside.numbers) :
    ∃ m', d.deallocate env finalize M = .ok ({ d with base := none }, .ok ())
        ((M.recordAll ((d.storageSteps env.context finalize).flatMap
          (events env M.memory M.memory.byteCount) ++ d.freeEvents)).withMemory m') ∧
      M.memory.TornDown m' (inside.numbers ++ [block])
        (M.memory.owners (released (d.storageSteps env.context finalize))) := by
  obtain ⟨m', ran, torn⟩ := prepared.exists_forM inert
  have still : m'.Stores d block size :=
    { stores with live := (torn.size (.heap block) fun b mem same => by
        cases same
        exact apart mem).trans stores.live }
  have both := torn.trans (.of_release m' block)
  rw [List.append_nil] at both
  refine ⟨m'.release block, deallocate_of_destroyed stores ?_ still, both⟩
  rw [destroyElements_eq, ← stores.storageSteps]
  exact ran

/-- The deallocation of a descriptor that owns a tree ends well and frees the tree. -/
theorem exists_deallocate (inert : env.Inert) (owner : d.isOwner = true) (finalize : Bool)
    {M : Machine} (owns : M.memory.Owns P [d] tree) (distinct : tree.Distinct) :
    ∃ M', d.deallocate env finalize M = .ok ({ d with base := none }, .ok ()) M' ∧
      M.Releases M' tree [] := by
  obtain ⟨block, size, inside, stores, prepared, within, similar⟩ :=
    exists_prepared (Q := fun _ => True) env.context owner finalize owns distinct fun _ _ => trivial
  have distinct' := similar.distinct distinct
  obtain ⟨m', ended, torn⟩ :=
    exists_deallocate_of_prepared inert finalize stores prepared distinct'.not_mem_inside
  obtain ⟨freed, uses, blocks, ordered⟩ :=
    prepared.finds.exists_freed prepared.distinct prepared.height_le_byteCount
  refine ⟨_, ended, freed ++ [(block, size)], ?_, (blocks.append_right _).trans similar.blocks.symm,
    similar.ordered (.node distinct' ordered blocks),
    torn.toFreed.congr (fun b => ?_) fun t mem => ?_⟩
  · rw [Machine.heapLog_withMemory, Machine.heapLog_recordAll, List.filterMap_append, uses,
      stores.filterMap_heapUse?_freeEvents, List.map_append]
    rfl
  · rw [similar.mem_iff]
    simp [or_comm]
  · exact .inr ⟨block, by simp, within t (List.mem_filter.mp mem).1⟩

/-- The deallocation of a descriptor that owns a tree ends well, whether or not it finalizes. It
    frees every block of the tree once, with the size of the block, and each block after all blocks
    inside it; all other regions of memory stay as they are, and the descriptor loses its base. -/
theorem deallocate_frees_tree (inert : env.Inert) (owner : d.isOwner = true) (finalize : Bool)
    {M : Machine} (owns : M.memory.Owns P [d] tree) (distinct : tree.Distinct) :
    ∃ (M' : Machine) (freed : List (Nat × Nat)),
      d.deallocate env finalize M = .ok ({ d with base := none }, .ok ()) M' ∧
      M'.heapLog = M.heapLog ++ freed.map (fun b => HeapUse.freed b.1 b.2) ∧
      freed.Perm tree.blocks ∧ tree.Ordered freed ∧
      (∀ b ∈ freed, (M.memory.region? (.heap b.1)).map (·.size) = some b.2) ∧
      (∀ b ∈ tree.numbers, M'.memory.region? (.heap b) = none) ∧
      ∀ region, (∀ b ∈ tree.numbers, region ≠ .heap b) →
        M'.memory.region? region = M.memory.region? region := by
  obtain ⟨M', ended, freed, log, blocks, ordered, memory⟩ :=
    exists_deallocate inert owner finalize owns distinct
  refine ⟨M', freed, ended, log, blocks, ordered, fun b mem => ?_, memory.gone,
    fun region outside => ?_⟩
  · exact (owns.live (blocks.mem_iff.mp mem)).1
  · exact memory.region? outside fun _ mem => nomatch mem

end Descriptor

/-! ### A linked list -/

namespace LinkedList

/-- A node with a descriptor for the rest of the list. -/
def node : DerivedType :=
  { number := 0, name := "node", parameters := [], components := [.descriptor "next" .derived 0],
    procedures := [], image := none, size := 456, isSequence := false, isBindC := false :
    DerivedType }.summarize

/-- The list whose first node is a block. -/
def list (block : Nat) : Descriptor :=
  { Descriptor.zeroed with
    base := some ⟨.heap block, 0⟩, elementSize := 456, typeCode := .derived, attr := .allocatable,
    flags := 1, addendumType := some node }

/-- Memory with one more block of zeros, large enough for a node. -/
def withBlock (m : Memory) : Memory := (m.allocate 456 (Allocator.bumpStretch m 456)).2

/-- Memory with two blocks of zeros. -/
def blank : Memory := withBlock (withBlock (.ofBuffers default #[node] []))

/-- Memory with two nodes: block 0 holds the first one, and its rest is block 1. -/
def memory : Memory := blank.writeDescriptor ⟨.heap 0, 0⟩ (list 1)

/-- Where procedures do nothing. -/
def environment : Environment := .withoutHeap .host false fun _ argument m => (argument, m)

/-- The elements of a list are nodes. -/
theorem derivedType?_list (block : Nat) : (list block).derivedType? = some node := by
  have addendum : (list block).hasAddendum = true := by
    show (1 : UInt8).toNat.testBit 0 = true
    decide
  rw [Descriptor.derivedType?, if_pos addendum]
  rfl

/-- The storage of a list is one node. -/
theorem blockSize?_list (block : Nat) : (list block).blockSize? = some 456 := by
  have size : (list block).storageBytes? = some 456 := by
    show Word.mul? 1 456 = some 456
    decide
  rw [Descriptor.blockSize?, size]
  decide

/-- A node has no embedded components. -/
theorem plain_node : ∀ c ∈ node.components, c.embedded? = none := by
  intro c mem
  obtain rfl := List.mem_singleton.mp mem
  rfl

/-- Nodes satisfy what teardown relies on. -/
theorem teardownSound_node : node.TeardownSound := by
  refine ⟨.of_ordered (by decide) (by decide) (by decide), nofun, ?_⟩
  intro c first parent
  obtain rfl := Option.some.inj first
  cases parent

/-- A list says what its elements are. -/
theorem typed (block : Nat) : (list block).Typed := by
  intro ty named
  obtain rfl := Option.some.inj ((derivedType?_list block).symm.trans named)
  exact ⟨rfl, .of_plain teardownSound_node plain_node⟩

/-- The one descriptor in a list is at the start of its first node. -/
theorem slots_list (block : Nat) : (list block).slots = [⟨.heap block, 0⟩] := by
  have inNode : node.slots ⟨.heap block, 0⟩ = [⟨.heap block, 0⟩] := DerivedType.slots_eq ..
  have elements : (list block).elementAddresses ⟨.heap block, 0⟩ = [⟨.heap block, 0⟩] := rfl
  rw [Descriptor.slots_of_base rfl, derivedType?_list]
  dsimp only
  rw [elements, List.flatMap_singleton, inNode]

/-- Both blocks consist of zeros. -/
theorem region?_blank {block : Nat} (lt : block < 2) :
    blank.region? (.heap block) = some (.zeroed 456) := by
  obtain rfl | rfl : block = 0 ∨ block = 1 := by omega
  · rfl
  · rfl

/-- Both blocks have room for a descriptor. -/
theorem spans_blank {block : Nat} (lt : block < 2) : blank.spans ⟨.heap block, 0⟩ descriptorBytes :=
  Memory.spans_iff.mpr ⟨_, region?_blank lt, Nat.le_of_eq (by simp [Block.zeroed, descriptorBytes])⟩

/-- The one table has a place. -/
theorem tablesApart : TablesApart (default : Loader).table 1 := ⟨by decide, by decide⟩

/-- What the first node points to is found again. -/
theorem finds : blank.Finds (list 1) where
  base := by
    rintro a ⟨⟩
    show blank.placement.address? _ = _
    decide
  type := by
    refine Memory.type?_tableWord tablesApart ?_
    rintro ty ⟨⟩
    rfl

/-- Both nodes are there. -/
theorem region?_memory {block : Nat} (lt : block < 2) :
    (memory.region? (.heap block)).map (·.size) = some 456 := by
  rw [memory, Memory.writeDescriptor, Memory.size_region?_writeFields, region?_blank lt]
  simp [Block.zeroed]

/-- The first node holds a descriptor of the second one. -/
theorem first_memory : memory.descriptor? ⟨.heap 0, 0⟩ = some (list 1) :=
  Memory.descriptor?_writeDescriptor (spans_blank (by decide)) finds

/-- The second node holds a descriptor without storage. -/
theorem second_memory : memory.descriptor? ⟨.heap 1, 0⟩ = some .zeroed := by
  have room := spans_blank (show 1 < 2 by decide)
  have apart : Address.Apart ⟨.heap 1, 0⟩ descriptorBytes ⟨.heap 0, 0⟩ descriptorBytes :=
    Address.apart_of_region_ne _ _ (by decide)
  rw [memory, (Memory.agrees_writeDescriptor (list 1) (spans_blank (by decide)) apart).descriptor?
    room]
  refine Memory.descriptor?_of_zeros room fun b inside => ?_
  have live : blank.region? b.region = some (.zeroed 456) := by
    rw [inside.1]
    exact region?_blank (by decide)
  exact Memory.byte?_zeroed live inside.2.2

/-- Each node is as large as its descriptor says. -/
theorem backs {block : Nat} (lt : block < 2) : memory.Backs (list block) block 456 where
  allocatable := rfl
  base := rfl
  live := region?_memory lt
  size := blockSize?_list block
  typed := typed block

/-- The list owns both blocks, whatever is asked of its descriptors and of the last one. -/
theorem owns_of {P : Descriptor → Prop} (lists : ∀ block, P (list block)) (last : P .zeroed) :
    memory.Owns P [list 0] (.cons 0 456 (.cons 1 456 .nil .nil) .nil) := by
  have inLast : memory.Owns P ((list 1).slots.map memory.slotValue) .nil := by
    rw [slots_list, List.map_singleton, Memory.slotValue_of_descriptor? second_memory]
    exact .idle last rfl .nil
  have inFirst : memory.Owns P ((list 0).slots.map memory.slotValue) (.cons 1 456 .nil .nil) := by
    rw [slots_list, List.map_singleton, Memory.slotValue_of_descriptor? first_memory]
    refine .own (lists 1) (backs (by decide)) (fun s mem => ?_) inLast .nil
    rw [slots_list, List.mem_singleton] at mem
    rw [mem, second_memory]
    rfl
  refine .own (lists 0) (backs (by decide)) (fun s mem => ?_) inFirst .nil
  rw [slots_list, List.mem_singleton] at mem
  rw [mem, first_memory]
  rfl

/-- The list owns both nodes, the second one inside the first one. -/
theorem owns : memory.Owns (fun _ => True) [list 0] (.cons 0 456 (.cons 1 456 .nil .nil) .nil) :=
  owns_of (fun _ => trivial) trivial

/-- The procedures leave memory as it is. -/
theorem inert : environment.Inert := fun _ _ _ => rfl

/-- The one descriptor in a node is at its start. -/
theorem slots_node (a : Address) : node.slots a = [a] := DerivedType.slots_eq ..

/-- So the first node begins with its descriptor. -/
theorem first_mem_slots : (⟨.heap 0, 0⟩ : Address) ∈ node.slots ⟨.heap 0, 0⟩ := by
  rw [slots_node]
  exact List.mem_cons_self

/-- Nodes satisfy at all depths what teardown relies on. -/
theorem throughout_node :
    node.Throughout DerivedType.TeardownSound := .of_plain teardownSound_node plain_node

/-- The descriptor in the first node owns the second node, whatever else is asked of both. -/
theorem ready_of {P : Descriptor → Prop} (lists : ∀ block, P (list block)) (last : P .zeroed) :
    memory.Ready P (node.slots ⟨.heap 0, 0⟩) (.cons 1 456 .nil .nil) := by
  have slots : node.slots ⟨.heap 0, 0⟩ = (list 0).slots := by rw [slots_node, slots_list]
  rw [slots]
  cases owns_of lists last with
  | idle _ idle => cases idle
  | own _ backs readable contents =>
    have distinct : (Forest.cons 0 456 (.cons 1 456 .nil .nil) .nil).Distinct := by decide
    exact .of_backs backs readable contents distinct

/-- So it does if nothing else is asked. -/
theorem ready : memory.Ready (fun _ => True) (node.slots ⟨.heap 0, 0⟩) (.cons 1 456 .nil .nil) :=
  ready_of (fun _ => trivial) trivial

end LinkedList

/-- The deallocation of a list of two nodes frees the second node and then the first one. -/
theorem Descriptor.deallocate_list_frees_tree : ∃ (M' : Machine) (freed : List (Nat × Nat)),
    (LinkedList.list 0).deallocate LinkedList.environment true ⟨LinkedList.memory, #[]⟩ =
      .ok ({ LinkedList.list 0 with base := none }, .ok ()) M' ∧
    M'.heapLog = freed.map (fun b => HeapUse.freed b.1 b.2) ∧ freed.Perm [(1, 456), (0, 456)] := by
  have inert : LinkedList.environment.Inert := fun _ _ _ => rfl
  obtain ⟨M', freed, ended, log, blocks, _⟩ :=
    deallocate_frees_tree (M := ⟨LinkedList.memory, #[]⟩) inert rfl true LinkedList.owns (by decide)
  exact ⟨M', freed, ended, log, blocks⟩

end DerivedTypes
