import DerivedTypes.Proofs.Allocation.Prediction
import DerivedTypes.Proofs.DefaultValue.InstanceBytes

namespace DerivedTypes

/-!
# Elements of new storage

An allocation that succeeds gives every element of its block the same default value, the one that an
instance of zeros gets, and does nothing else. Types without a default value are passed over as a
whole, which comes to the same (`DerivedType.defaultSteps_of_not_initializable`).

* `DerivedType.defaultCalls`: the calls on the way to a default value, told without a run, and
  `Descriptor.calls_setDefaults`: those for all elements, one after the other;
* `Descriptor.allocate_gives_default_values`: what an allocation leaves.
-/

/-! ### Calls -/

/-- The calls that give the instance at an address its default value. -/
def DerivedType.defaultCalls (context : ExecutionContext) (ty : DerivedType) (a : Address) :
    List (Procedure × Argument) :=
  (ty.defaultEffects context a).flatMap (·.calls)

/-- Default initialization of an instance makes these calls. -/
theorem DerivedType.calls_setDefault {env : Environment} {ty : DerivedType} {a : Address}
    {M M' : Machine} (ended : ty.setDefault env a M = .ok () M') :
    M'.calls = M.calls ++ ty.defaultCalls env.context a := by
  rw [setDefault_eq] at ended
  exact DefaultStep.calls_of_forM ended

namespace Descriptor

variable {env : Environment} {d d' : Descriptor} {ty : DerivedType} {lower upper : List Subscript}
  {data : Address} {M M' : Machine}

/-- Default initialization of described elements makes the calls for each of them, in element
    order. -/
theorem calls_setDefaults (named : d.derivedType? = some ty)
    (ended : d.setDefaults env data M = .ok () M') :
    M'.calls = M.calls ++ (d.elementAddresses data).flatMap (ty.defaultCalls env.context) := by
  rw [setDefaults_eq] at ended
  rw [DefaultStep.calls_of_forM ended, defaultSteps_eq_flatMap _ named, List.flatMap_assoc,
    List.flatMap_assoc]
  congr 2
  funext e
  exact List.flatMap_assoc.symm

/-! ### Allocations -/

/-- An allocation that succeeds lets the descriptor point to a new block and gives it bounds, and
    changes nothing else of it. There are as many elements as the bounds ask for. Each of them holds
    the default value: the bytes that default initialization makes of an instance of zeros, wherever
    that lies. On the way, the calls for one element follow those for the element before it. The
    block is new and as large as asked for, and all other memory is as it was. -/
theorem allocate_gives_default_values (named : d.derivedType? = some ty)
    (size : d.elementSize = ty.size) (laid : ty.Throughout DerivedType.LaidOut)
    (code : ty.Throughout (DerivedType.InitializesByBytes env))
    (ended : d.allocate env lower upper M = .ok (d', .ok ()) M') :
    (∃ slots : Vector Dimension 15,
      d' = { d with base := some M.nextBlock, dimensionSlots := slots } ∧
      d.setBounds lower upper = .ok { d with dimensionSlots := slots } ∧
      ∀ i (_ : i < 15), d.rank.toNat ≤ i → slots[i] = d.dimensionSlots[i]) ∧
    d'.elementCount = requestedCount lower upper ∧
    (∀ e ∈ d'.elementAddresses M.nextBlock, M'.memory.HoldsDefault env ty e) ∧
    M'.calls = M.calls ++ (d'.elementAddresses M.nextBlock).flatMap (ty.defaultCalls env.context) ∧
    (∀ e N N', ty.setDefault env e N = .ok () N' → N'.calls = N.calls ++
      ty.defaultCalls env.context e) ∧
    M'.heapLog = M.heapLog ++
    [.allocated M.memory.heap.size (max 1 (d.requestedBytes lower upper))] ∧
    (M.withBlock env (max 1 (d.requestedBytes lower upper))).memory.ChangedInside
      M'.memory M.nextBlock
      (d.requestedBytes lower upper) ∧
    ∀ region, region ≠ .heap M.memory.heap.size →
    M'.memory.region? region = M.memory.region? region := by
  obtain ⟨bytes, bounded, low, high, predicted, _, bounds, _, taken⟩ :=
    exists_of_allocate_eq_ok ended
  have asked : d.requestedBytes lower upper = bytes := (boundsBytes?_eq_some_iff.mp predicted).2.2.1
  have kept := fun i lt => dimensionSlots_of_setBounds (i := i) bounds lt
  have counted : bounded.elementCount = requestedCount lower upper := by
    rw [elementCount, elementCount?_of_setBounds bounds low high predicted, Option.getD_some]
  have log := heapLog_of_takeBlock taken
  obtain ⟨slots, same⟩ := eq_of_setBounds bounds
  have named' : (bounded.withStorage M.nextBlock).derivedType? = some ty := by
    rw [same]
    exact named
  have size' : (bounded.withStorage M.nextBlock).elementSize = ty.size := by
    rw [same]
    exact size
  obtain ⟨rfl, _, initialized⟩ := eq_of_takeBlock_eq_ok taken
  -- The elements lie in the new block, which is all zeros.
  have whole : (bounded.withStorage M.nextBlock).elementCount *
      (bounded.withStorage M.nextBlock).elementSize.toNat = bytes := by
    rw [size', ← asked, requestedBytes, ← counted, size]
    rfl
  have fits : (bounded.withStorage M.nextBlock).elementCount *
      (bounded.withStorage M.nextBlock).elementSize.toNat ≤ max 1 bytes := by
    rw [whole]
    exact Nat.le_max_right ..
  obtain ⟨M₁, again, changed, values⟩ := exists_setDefaults_holdsDefault named' size' laid code
    (M := M.withBlockFor env (max 1 bytes) (bounded.withStorage M.nextBlock))
    (.inr (M.spans_withBlock env fits)) fun _ inside => Machine.byte?_withBlock fits inside
  cases initialized.symm.trans again
  have calls := calls_setDefaults named' initialized
  rw [whole] at changed
  rw [asked]
  refine ⟨⟨slots, ?_, ?_, ?_⟩, counted, values, ?_, fun _ _ _ =>
    DerivedType.calls_setDefault, ?_, changed,
    fun region ne => (changed.region?_of_ne ne).trans (M.region?_withBlock env _ ne)⟩
  · rw [withStorage, same]
  · rw [bounds, same]
  · rwa [same] at kept
  · simpa [Event.call?] using calls
  · rw [log, Machine.heapLog_withBlock]

end Descriptor

/-! ### Counters -/

namespace Counters

open DerivedType.Record (counter)

/-- The initializer of a counter adds seven to its first byte. -/
def environment : Environment where
  toAllocator := .bump 4096
  context := .host
  traces := false
  code := fun _ argument m =>
    match argument with
    | .scalar a => (argument, m.write a [(m.byte? a).getD 0 + 7])
    | .array _ => (argument, m)

/-- The code of the example takes no storage away. -/
theorem keepsRoom : environment.KeepsRoom := by
  intro entry argument m a n room
  cases argument with
  | scalar b => exact (Memory.spans_write ..).trans room
  | array _ => exact room

/-- What is added to a byte depends on the byte alone. -/
theorem initializesByBytes (ty : DerivedType) (some : 1 ≤ ty.size.toNat) :
    ty.InitializesByBytes environment where
  inside := fun _ _ _ _ _ room => .of_write room some
  same := by
    intro _ _ _ a b m m' beside
    have same : m'.byte? b = m.byte? a := beside.same 0 some
    have fits : m.Admits a 1 := beside.left.sub (i := 0) (by omega)
    have fits' : m'.Admits b 1 := beside.right.sub (i := 0) (by omega)
    refine beside.after (.of_write beside.left some) (.of_write beside.right some) fun j lt => ?_
    show (m'.write b [(m'.byte? b).getD 0 + 7]).byte? (b + j) =
      (m.write a [(m.byte? a).getD 0 + 7]).byte? (a + j)
    rw [same, Memory.byte?_write_of_admits (s := ⟨a, [(m.byte? a).getD 0 + 7]⟩) fits,
      Memory.byte?_write_of_admits (s := ⟨b, [(m.byte? a).getD 0 + 7]⟩) fits', Store.byte?_add,
      Store.byte?_add, beside.same j lt]

/-- The initializer of a counter. -/
def initializer : Procedure := .initializer "init" ⟨some ⟨0⟩, none⟩

/-- Default initialization of a counter is one call. -/
theorem defaultCalls_counter :
    counter.defaultCalls environment.context = fun a => [(initializer, .scalar a)] := by
  funext a
  rw [DerivedType.defaultCalls, DerivedType.defaultEffects_of_entry rfl rfl]
  rfl

/-- An unallocated row of counters. -/
def counters : Descriptor :=
  { Descriptor.zeroed with
    elementSize := 4, typeCode := .derived, rank := 1, attr := .allocatable, flags := 1,
      addendumType := some counter }

/-- A counter has no components that could overlap. -/
theorem laidOut_counter : counter.Throughout DerivedType.LaidOut :=
  .of_plain (.of_ordered (by decide) (by decide) (by decide)) nofun

/-- The initializer of counters depends on the bytes of the instance only. -/
theorem initializesByBytes_counter :
    counter.Throughout (DerivedType.InitializesByBytes environment) :=
  .of_plain (initializesByBytes counter (by decide)) nofun

/-- An allocation of three counters is granted. -/
theorem exists_allocate_counters :
    ∃ d M, counters.allocate environment [1] [3] default = .ok (d, .ok ()) M := by
  have typed : counters.MatchesType := by
    intro ty named
    obtain rfl : counter = ty := Option.some.inj named
    exact ⟨rfl, laidOut_counter⟩
  obtain ⟨_, fits⟩ :=
    Descriptor.allocate_of_requested (d := counters) environment default [1] [3] rfl rfl (by decide)
    rfl rfl
  obtain ⟨bounded, asks⟩ := fits (by decide) (by decide) (by decide) (.inl (by decide))
  obtain ⟨M, ended, _⟩ := asks.succeeds rfl typed keepsRoom
  exact ⟨_, M, ended⟩

/-- A buffer with some bytes, and what happened so far. -/
def buffer (bytes : List UInt8) (events : Array Event) :
    Machine := ⟨.ofBuffers default #[] [bytes], events⟩

/-- Where the buffer begins. -/
def start : Address := ⟨.buffer 0, 0⟩

/-- The default value of a counter is a seven and three zeros. -/
theorem read?_of_holdsDefault {m : Memory} {e : Address}
    (h : m.HoldsDefault environment counter e) :
    m.read? e 4 = some [7, 0, 0, 0] := by
  have zeros : ∀ j < 4, (buffer [0, 0, 0, 0] #[]).memory.byte? (start + j) = some 0 := by decide
  have sevens : ∀ j < 4, (buffer [7, 0, 0, 0] #[]).memory.byte? (start + j) = [7, 0, 0, 0][j]? := by
    decide
  -- A buffer of zeros shows what the initializer makes of them.
  obtain ⟨Z, ran, _, room, same⟩ := h (buffer [0, 0, 0, 0] #[]) start (.inr rfl) fun x inside => by
    obtain ⟨j, lt, rfl⟩ := inside.exists_add
    exact zeros j lt
  have called : counter.setDefault environment start (buffer [0, 0, 0, 0] #[]) =
      .ok () (buffer [7, 0, 0, 0] #[.call initializer .host (.scalar start)]) := by
    rw [DerivedType.setDefault, DerivedType.forDefaultSteps]
    rfl
  cases ran.symm.trans called
  exact Memory.read?_eq_some_iff.mpr
    ⟨room.resolve_left (by decide), rfl, fun j lt => (same j lt).trans (sevens j lt)⟩

/-- Where three counters lie in the first block. -/
def addresses : List Address := [⟨.heap 0, 0⟩, ⟨.heap 0, 4⟩, ⟨.heap 0, 8⟩]

end Counters

/-- Three counters are allocated. The initializer is called once for each of them, and each of them
    holds a seven and three zeros then. -/
theorem Descriptor.allocate_counters : ∃ d M,
    Counters.counters.allocate Counters.environment [1] [3] default = .ok (d, .ok ()) M ∧
    d.elementCount = 3 ∧
    (∀ e ∈ Counters.addresses, M.memory.read? e 4 = some [7, 0, 0, 0]) ∧
    M.calls = Counters.addresses.map fun e => (Counters.initializer, .scalar e) := by
  obtain ⟨d, M, ended⟩ := Counters.exists_allocate_counters
  obtain ⟨⟨_, same, _⟩, count, values, calls, _⟩ := allocate_gives_default_values rfl rfl
    Counters.laidOut_counter Counters.initializesByBytes_counter ended
  have three : d.elementCount = 3 := count.trans (by decide)
  have elements : d.elementAddresses (Machine.nextBlock default) = Counters.addresses := by
    rw [elementAddresses, three, same]
    rfl
  rw [elements] at values calls
  refine ⟨d, M, ended, three, fun e mem => Counters.read?_of_holdsDefault (values e mem), ?_⟩
  rw [calls, Counters.defaultCalls_counter]
  rfl

end DerivedTypes
