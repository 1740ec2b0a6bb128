import DerivedTypes.Proofs.Session.Accounts
import DerivedTypes.Proofs.Session.Owners
import DerivedTypes.Recording

namespace DerivedTypes

/-!
# Heap safety

A program starts with zeroed local descriptors and an empty heap, and goes on with commands that it
may use: those which make allocatables, and allocation statements (`Session.Admits`). After any run
(`Session.Reached`) the allocated descriptors and the blocks on the heap belong together one by one,
every free so far was right, and the next command that the program may use comes to an end
(`Session.Reached.heap_safe`).

What a step preserves is `Session.Accounted`; `Admits.exists_run` is the step, and
`Reached.exists_accounted` the induction over runs.
-/

namespace Session

/-- The commands that a program may use next. Each is about a descriptor that the session holds. New
    allocatables take the place of descriptors without storage, have no more dimensions than there
    is room for, and types among the tables. -/
inductive Admits (tables : Array DerivedType) (s : Session) : Command → Prop
  | initIntrinsic {p : Place} {d : Descriptor} (holds : s.Holds p d) (idle : d.isAllocated = false)
      (typeCode : TypeCode) {rank : Nat} (le : rank ≤ maxRank) :
      Admits tables s (.initIntrinsic p typeCode rank)
  | initCharacter {p : Place} {d : Descriptor} (holds : s.Holds p d) (idle : d.isAllocated = false)
      (length : UInt64) (kind : UInt8) {rank : Nat} (le : rank ≤ maxRank) :
      Admits tables s (.initCharacter p length kind rank)
  | initDerived {p : Place} {d : Descriptor} (holds : s.Holds p d) (idle : d.isAllocated = false)
      {ty : DerivedType} (known : tables[ty.number]? = some ty) {rank : Nat} (le : rank ≤ maxRank) :
      Admits tables s (.initDerived p ty rank)
  | applyLenValues {p : Place} {d : Descriptor} (holds : s.Holds p d) (values : List Subscript) :
      Admits tables s (.applyLenValues p values)
  | suppressFinalization {p : Place} {d : Descriptor} (holds : s.Holds p d) (suppress : Bool) :
      Admits tables s (.suppressFinalization p suppress)
  | allocate {p : Place} {d : Descriptor} (holds : s.Holds p d) (lower upper : List Subscript) :
      Admits tables s (.allocate p lower upper)
  | deallocate {p : Place} {d : Descriptor} (holds : s.Holds p d) (finalize : Bool) :
      Admits tables s (.deallocate p finalize)

/-- A run of commands that the program may use leads to a session. -/
inductive Reached (env : Environment) (tables : Array DerivedType) : Session → Prop
  | start {loader : Loader} (apart : TablesApart loader.table tables.size)
      (buffers : List (List UInt8))
      (count : Nat) : Reached env tables (.start loader tables buffers count)
  | step {s s' : Session} {command : Command} {answer : Answer} (before : Reached env tables s)
      (admitted : s.Admits tables command) (ran : command.run env s = .ok answer s') :
      Reached env tables s'

variable {env : Environment} {tables : Array DerivedType} {s : Session} {p : Place} {d : Descriptor}
  {f : Forest}

/-- A command that may be used next comes to an end, and the accounts stay right. -/
theorem Admits.exists_run (inert : env.Inert) (sound : SoundTables tables) {command : Command}
    (admitted : s.Admits tables command) (h : s.Accounted tables f) :
    ∃ answer s', command.run env s = .ok answer s' ∧ ∃ f', s'.Accounted tables f' := by
  cases admitted with
  | initIntrinsic holds idle typeCode le =>
    obtain ⟨s', _, _, ended, goesOn⟩ := h.exists_make holds idle (·.initIntrinsic typeCode _)
      (Descriptor.exists_establishIntrinsic tables le ..)
    exact ⟨_, s', Dialogue.bind_of_ok ended, goesOn.accounted⟩
  | initCharacter holds idle length kind le =>
    obtain ⟨s', _, _, ended, goesOn⟩ := h.exists_make holds idle (·.initCharacter length kind _)
      (Descriptor.exists_establishIntrinsic tables le ..)
    exact ⟨_, s', Dialogue.bind_of_ok ended, goesOn.accounted⟩
  | initDerived holds idle known le =>
    obtain ⟨s', _, _, ended, goesOn⟩ := h.exists_make holds idle (·.initDerived _ _)
      (Descriptor.exists_initDerived known le)
    exact ⟨_, s', Dialogue.bind_of_ok ended, goesOn.accounted⟩
  | applyLenValues holds values =>
    obtain ⟨s', _, _, _, _, ended, goesOn⟩ :=
      h.exists_statement holds (fun d => Run.ofExcept (d.applyLenValues values))
        fun tree others owns accounts => by
          have fine := owns.fine _ List.mem_cons_self
          obtain ⟨d', outcome, applied, same⟩ := Descriptor.exists_applyLenValues
            (fun ty named => (fine.heapSound sound named).own.layout) values
          refine ⟨s.machine, d', outcome, tree, ?_,
            Descriptor.exchanges_of_sameStorage owns accounts same⟩
          rw [applied]
          exact Run.ofExcept_ok _ _
    exact ⟨_, s', Dialogue.bind_of_ok ended, goesOn.accounted⟩
  | @suppressFinalization _ d holds suppress =>
    obtain ⟨s', _, _, ended, goesOn⟩ :=
      h.exists_update holds (fun d => .ok (d.suppressFinalization suppress))
      fun tree others owns accounts =>
        ⟨_, tree, rfl, Descriptor.exchanges_of_sameStorage owns accounts
        (d.sameStorage_suppressFinalization suppress)⟩
    exact ⟨_, s', Dialogue.bind_of_ok ended, goesOn.accounted⟩
  | allocate holds lower upper =>
    obtain ⟨s', _, _, _, _, ended, goesOn⟩ :=
      h.exists_statement holds (·.allocate env lower upper) fun tree others owns accounts =>
        Descriptor.exists_allocate_exchanges inert sound lower upper owns accounts
    exact ⟨_, s', Dialogue.bind_of_ok ended, goesOn.accounted⟩
  | deallocate holds finalize =>
    obtain ⟨s', _, _, _, _, ended, goesOn⟩ :=
      h.exists_statement holds (·.deallocate env finalize) fun tree others owns accounts =>
        Descriptor.exists_deallocate_exchanges inert finalize owns accounts
    exact ⟨_, s', Dialogue.bind_of_ok ended, goesOn.accounted⟩

/-- After every run, the accounts are right. -/
theorem Reached.exists_accounted (inert : env.Inert) (sound : SoundTables tables)
    (reached : Reached env tables s) : ∃ f, s.Accounted tables f := by
  induction reached with
  | start apart buffers count => exact ⟨.nil, accounted_start _ apart buffers count⟩
  | step _ admitted ran ih =>
    obtain ⟨f, accounted⟩ := ih
    obtain ⟨answer, s', ran', accounted'⟩ := admitted.exists_run inert sound accounted
    -- A command has one end only.
    cases ran.symm.trans ran'
    exact accounted'

/-- Heap safety. After every run the uses of the allocator balance, and they leave the blocks on the
    heap, with their sizes. Every held descriptor with storage owns one of these blocks, which is as
    large as the descriptor says, and no descriptor at another place has the same base; every block
    has such an owner. A block was live whenever it was freed, and as large as it was then said to
    be. The next command that the program may use comes to an end. -/
theorem Reached.heap_safe (inert : env.Inert) (sound : SoundTables tables)
    (reached : Reached env tables s) :
    ∃ live, HeapUse.balance s.machine.heapLog = some live ∧
      (∀ block size, (block, size) ∈ live ↔
        (s.machine.memory.region? (.heap block)).map (·.size) = some size) ∧
      (∀ p d, s.Holds p d → d.isAllocated = true →
        ∃ block size, d.base = some ⟨.heap block, 0⟩ ∧ (block, size) ∈ live ∧
          d.blockSize? = some size ∧
          ∀ q e, s.Holds q e → e.base = d.base → q = p) ∧
      (∀ b ∈ live, ∃ p d, s.Holds p d ∧ d.base = some ⟨.heap b.1, 0⟩) ∧
      (∀ earlier later block size, s.machine.heapLog = earlier ++ .freed block size :: later →
        ∃ before, HeapUse.balance earlier = some before ∧ (block, size) ∈ before) ∧
      ∀ command, s.Admits tables command → ∃ answer s', command.run env s = .ok answer s' := by
  obtain ⟨f, accounted⟩ := reached.exists_accounted inert sound
  have owners : ∀ d, Descriptor.Established tables d → d.isAllocated = true → d.isOwner = true :=
    fun _ fine => fine.isOwner_of_isAllocated
  obtain ⟨live, balance, same⟩ := accounted.accounts.balance
  obtain ⟨placed, numbers, complete, held⟩ := exists_owners accounted.owns owners
  have onHeap : ∀ block size, (block, size) ∈ live ↔
      (s.machine.memory.region? (.heap block)).map (·.size) = some size := by
    intro block size
    rw [same.mem_iff, accounted.accounts.mem_iff]
  have distinct : (placed.map (·.1)).Nodup := by
    rw [numbers]
    exact accounted.accounts.distinct
  refine ⟨live, balance, onHeap, fun p d holds allocated => ?_, fun b mem => ?_, ?_, ?_⟩
  · obtain ⟨tree, others, owns, _⟩ :=
      holds.exists_update accounted.owns accounted.accounts.distinct owners
    have owner := owners d (owns.fine d List.mem_cons_self) allocated
    cases owns with
    | idle _ idle => simp [owner] at idle
    | @own _ _ block size _ _ _ backs =>
      refine ⟨block, size, backs.base, (onHeap block size).mpr backs.live, backs.size, ?_⟩
      intro q e holds' shared
      -- Both places belong to the block, which has one place.
      have here := complete p d block holds backs.base
      have there := complete q e block holds' (shared.trans backs.base)
      exact congrArg Prod.snd (List.inj_on_of_nodup_map distinct there here rfl)
  · have number : b.1 ∈ placed.map (·.1) := by
      rw [numbers]
      exact List.mem_map_of_mem (same.mem_iff.mp mem)
    obtain ⟨x, there, number⟩ := List.mem_map.mp number
    obtain ⟨d, holds, base⟩ := held x there
    exact ⟨x.2, d, holds, by rw [base, number]⟩
  · intro earlier later block size log
    rw [log] at balance
    exact HeapUse.exists_balance_of_freed balance
  · intro command admitted
    obtain ⟨answer, s', ran, _⟩ := admitted.exists_run inert sound accounted
    exact ⟨answer, s', ran⟩

/-- Where no local descriptor has storage, no held descriptor has. -/
theorem Holds.base_eq_none (h : s.Holds p d) (idle : ∀ d ∈ s.locals, d.base = none) :
    d.base = none := by
  induction h with
  | localVariable there => exact idle _ (List.mem_of_getElem? there)
  | component _ slot _ ih =>
    obtain ⟨data, _, base, _⟩ := Descriptor.mem_slots.mp slot
    cases base.symm.trans ih

end Session

/-! ### A list on the heap -/

namespace LinkedList

/-- Where procedures do nothing and the heap has room for a few nodes. -/
def roomy : Environment := .ofRecordings .host false #[] 4096

/-- Procedures do nothing there. -/
theorem inert_roomy : roomy.Inert := by
  intro entry argument m
  show (Recording.idle.run argument m).2 = m
  unfold Recording.run
  cases Recording.origin argument <;> rfl

/-- Nodes can be allocated and freed. -/
theorem soundTables : SoundTables #[node] where
  heapSound := by
    intro i ty there
    obtain ⟨lt, rfl⟩ := Array.getElem?_eq_some_iff.mp there
    obtain rfl : i = 0 := by simpa using lt
    exact .of_plain ⟨teardownSound_node, rfl, nofun⟩ plain_node

/-- An allocatable list without a node. -/
def empty : Descriptor := { list 0 with base := none }

/-- A zeroed descriptor is made an empty list. -/
theorem initDerived_node : Descriptor.zeroed.initDerived node 0 = .ok empty := rfl

/-- The first node of a list takes 456 bytes. -/
theorem allocationSize_empty : empty.allocationSize [] [] = .ok 456 := rfl

/-- A list has no bounds. -/
theorem setBounds_empty : empty.setBounds [] [] = .ok empty := rfl

/-- The node is the first of the tables. -/
theorem known_node : #[node][node.number]? = some node := rfl

/-- An empty list may get a node. -/
theorem established_empty : empty.Established #[node] := by
  obtain ⟨d, made, fine, _⟩ :=
    Descriptor.exists_initDerived (d := .zeroed) known_node (Nat.zero_le maxRank)
  exact Except.ok.inj (made.symm.trans initDerived_node) ▸ fine

/-- The session before the first node is allocated. -/
def beginning : Session where
  machine := ⟨.ofBuffers default #[node] [], #[]⟩
  locals := [empty]

/-- A program makes an empty list. -/
theorem reached_beginning : Session.Reached roomy #[node] beginning := by
  have holds : (Session.start default #[node] [] 1).Holds (.localVariable 0) .zeroed :=
    .localVariable rfl
  have ran : (Command.initDerived (.localVariable 0) node 0).run roomy
      (.start default #[node] [] 1) =
      .ok .done beginning := rfl
  exact .step (.start tablesApart [] 1) (.initDerived holds rfl known_node (by decide)) ran

/-- Where the first node has the descriptor for the rest of the list. -/
def rest : Address := ⟨.heap 0, 0⟩

/-- The first node has a descriptor inside. -/
theorem rest_mem_slots : rest ∈ (list 0).slots := by
  rw [slots_list]
  exact List.mem_cons_self

/-- The session after the first node is allocated, which ends the list. -/
theorem exists_first : ∃ s, Session.Reached roomy #[node] s ∧ s.locals = [list 0] ∧
    s.machine.memory.descriptor? rest = some .zeroed ∧
    (beginning.machine.withBlock roomy 456).memory.SameShape s.machine.memory := by
  have holds : beginning.Holds (.localVariable 0) empty := .localVariable rfl
  obtain ⟨M, allocated, _, _, zeroed, _, shape, _⟩ :=
    Descriptor.exists_allocate_of_granted inert_roomy soundTables
    (M := beginning.machine) established_empty allocationSize_empty setBounds_empty (by decide)
  refine ⟨⟨M, [list 0]⟩, ?_, rfl, zeroed rest rest_mem_slots, shape⟩
  have ran : (Command.allocate (.localVariable 0) [] []).run roomy beginning =
      .ok (.ended (.ok ())) ⟨M, [list 0]⟩ :=
    Dialogue.bind_of_ok (Dialogue.statement_of_ok (p := .localVariable 0) rfl allocated rfl)
  exact .step reached_beginning (.allocate holds [] []) ran

/-- The session after the second node is allocated, for the descriptor in the first one. -/
theorem exists_second : ∃ s, Session.Reached roomy #[node] s ∧ s.locals = [list 0] ∧
    s.Holds (.stored rest) (list 1) := by
  obtain ⟨s, reached, locals, zeroed, shape⟩ := exists_first
  obtain ⟨f, accounted⟩ := reached.exists_accounted inert_roomy soundTables
  have first : s.Holds (.localVariable 0) (list 0) := .localVariable (by rw [locals]; rfl)
  have holds : s.Holds (.stored rest) .zeroed := .component first rest_mem_slots zeroed
  -- The descriptor becomes an empty list.
  obtain ⟨s₁, d, made, ended, goesOn⟩ := accounted.exists_make holds rfl (·.initDerived node 0)
    (Descriptor.exists_initDerived known_node (Nat.zero_le maxRank))
  obtain rfl := Except.ok.inj (made.symm.trans initDerived_node)
  have reached₁ : Session.Reached roomy #[node] s₁ :=
    .step reached (.initDerived holds rfl known_node (Nat.zero_le maxRank))
      (Dialogue.bind_of_ok ended)
  have shape₁ := shape.trans goesOn.shape
  have granted : roomy.grants s₁.machine 456 = true := by
    refine Allocator.grants_bump_iff.mpr ⟨by decide, ?_⟩
    rw [Allocator.bumpStretch, Allocator.bumpFirst, shape₁.placement]
    decide
  -- The empty list gets a node.
  obtain ⟨f₁, accounted₁⟩ := goesOn.accounted
  obtain ⟨tree, others, owns, accounts, there, put⟩ := accounted₁.exists_exchange goesOn.holds
  obtain ⟨M, allocated, exchanged⟩ :=
    Descriptor.exists_allocate_exchanges_of_granted inert_roomy soundTables
    owns accounts allocationSize_empty setBounds_empty granted
  obtain ⟨s₂, goesOn₂⟩ := put _ _ _ exchanged
  have ran : (Command.allocate (.stored rest) [] []).run roomy s₁ = .ok (.ended (.ok ())) s₂ :=
    Dialogue.bind_of_ok (Dialogue.statement_of_ok there allocated goesOn₂.written)
  have number : s₁.machine.nextBlock = ⟨.heap 1, 0⟩ := by
    rw [Machine.nextBlock, shape₁.heapSize]
    rfl
  refine ⟨s₂, .step reached₁ (.allocate goesOn.holds [] []) ran, ?_, ?_⟩
  · rw [goesOn₂.locals_eq, goesOn.locals_eq, locals]
  · rw [← show empty.withStorage ⟨.heap 1, 0⟩ = list 1 from rfl, ← number]
    exact goesOn₂.holds

end LinkedList

/-- A list of two nodes owns two blocks: one for the local descriptor, and one for the descriptor in
    the first node. When the list is deallocated, both are freed. -/
theorem LinkedList.list_heap_safe : ∃ s s' live,
    Session.Reached roomy #[node] s ∧ s.Holds (.localVariable 0) (list 0) ∧
    s.Holds (.stored rest) (list 1) ∧
    HeapUse.balance s.machine.heapLog = some live ∧ (0, 456) ∈ live ∧ (1, 456) ∈ live ∧
    (∀ q e, s.Holds q e → e.base = (list 1).base → q = .stored rest) ∧
    (Command.deallocate (.localVariable 0) true).run roomy s = .ok (.ended (.ok ())) s' ∧
    Session.Reached roomy #[node] s' ∧ HeapUse.balance s'.machine.heapLog = some [] := by
  obtain ⟨s, reached, locals, second⟩ := exists_second
  have first : s.Holds (.localVariable 0) (list 0) := .localVariable (by rw [locals]; rfl)
  obtain ⟨live, balance, _, owners, _⟩ := reached.heap_safe inert_roomy soundTables
  have owned (block : Nat) {p : Place} (holds : s.Holds p (list block)) : (block, 456) ∈ live ∧
      ∀ q e, s.Holds q e → e.base = (list block).base → q = p := by
    obtain ⟨_, size, base, mem, same, alone⟩ := owners p _ holds rfl
    cases base
    cases same.symm.trans (blockSize?_list block)
    exact ⟨mem, alone⟩
  -- The deallocation leaves an empty list.
  obtain ⟨f, accounted⟩ := reached.exists_accounted inert_roomy soundTables
  obtain ⟨tree, others, owns, accounts, there, put⟩ := accounted.exists_exchange first
  obtain ⟨M, ended, exchanged⟩ :=
    Descriptor.exists_deallocate_exchanges_of_owner inert_roomy true owns accounts rfl
  obtain ⟨s', goesOn⟩ := put _ _ _ exchanged
  have ran : (Command.deallocate (.localVariable 0) true).run roomy s = .ok (.ended (.ok ())) s' :=
    Dialogue.bind_of_ok (Dialogue.statement_of_ok there ended goesOn.written)
  have reached' : Session.Reached roomy #[node] s' := .step reached (.deallocate first true) ran
  -- No descriptor has storage then, so there is no block left.
  have idle : ∀ d ∈ s'.locals, d.base = none := by
    intro d mem
    obtain ⟨index, there⟩ := List.getElem?_of_mem mem
    by_cases here : index = 0
    · subst here
      cases there.symm.trans goesOn.holds.at?_eq
      rfl
    · rw [goesOn.locals index (by simpa using here), locals,
        List.getElem?_eq_none (by simpa using by omega)] at there
      cases there
  obtain ⟨live', balance', _, _, backed, _⟩ := reached'.heap_safe inert_roomy soundTables
  have none : live' = [] := List.eq_nil_iff_forall_not_mem.mpr fun b mem => by
    obtain ⟨p, d, holds, base⟩ := backed b mem
    cases base.symm.trans (holds.base_eq_none idle)
  exact ⟨s, s', live, reached, first, second, balance, (owned 0 first).1, (owned 1 second).1,
    (owned 1 second).2,
    ran, reached', none ▸ balance'⟩

end DerivedTypes
