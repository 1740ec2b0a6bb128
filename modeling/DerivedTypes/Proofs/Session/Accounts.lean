import DerivedTypes.Proofs.Ownership.Exchange
import DerivedTypes.Proofs.Session.Places

namespace DerivedTypes

/-!
# Sessions with right accounts

In a session that is `Accounted` the local descriptors own exactly the blocks on the heap. An
operation that exchanges the tree of one held descriptor keeps this, wherever the descriptor is:
`Accounted.exists_write` puts the new descriptor in its place, and `exists_update` and
`exists_statement` do so for the two ways in which commands change descriptors. How the session
`GoesOn` then is the same for all of them.
-/

namespace Dialogue

variable {α β : Type} {s s' : Session}

/-- After a step that ends well the next one goes on. -/
theorem bind_of_ok {x : Dialogue α} {f : α → Dialogue β} {a : α} (h : x s = .ok a s') :
    (x >>= f) s = f a s' := by
  show EStateM.bind x f s = _
  unfold EStateM.bind
  rw [h]

/-- What an operation does to the machine is done to that of the session. -/
theorem onMachine_of_ok {operation : Run α} {a : α} {M' : Machine}
    (h : operation s.machine = .ok a M') :
    onMachine operation s = .ok a ⟨M', s.locals⟩ := by
  obtain ⟨machine, locals⟩ := s
  simp only [onMachine]
  rw [show operation machine = .ok a M' from h]

variable {p : Place} {d d' : Descriptor}

/-- A descriptor that can be changed is changed in its place. -/
theorem update_of_ok {f : Descriptor → Except Fault Descriptor} (there : read p s = .ok d s)
    (changed : f d = .ok d') : update p f s = write p d' s := by
  unfold update
  rw [bind_of_ok there, changed]
  exact bind_of_ok (onMachine_of_ok (Run.ofExcept_ok d' s.machine))

/-- A statement puts the descriptor that it makes in its place. -/
theorem statement_of_ok {f : Descriptor → Run (Descriptor × Outcome)} {outcome : Outcome}
    {M' : Machine} (there : read p s = .ok d s) (ended : f d s.machine = .ok (d', outcome) M')
    (written : write p d' ⟨M', s.locals⟩ = .ok () s') : statement p f s = .ok outcome s' := by
  unfold statement
  rw [bind_of_ok there, bind_of_ok (onMachine_of_ok ended)]
  exact bind_of_ok written

end Dialogue

namespace Machine.Exchanges

variable {tables : Array DerivedType} {others : List (Nat × Nat)} {M M' : Machine} {d' : Descriptor}
  {tree : Forest}

/-- An operation leaves the blocks of others as they were. -/
theorem keepsBlocks (h : M.Exchanges tables others M' d' tree) (p : Place) :
    M.memory.KeepsBlocks M'.memory p others where
  pointers := h.pointers
  size := fun b mem => by rw [h.region? b mem]
  byte? := fun b mem x region _ => Memory.byte?_congr (by rw [region, h.region? b mem])

/-- A descriptor that is stored in a block of others still owns its tree. -/
theorem owns_writeDescriptor (h : M.Exchanges tables others M' d' tree) {a : Address}
    {b : Nat × Nat} (mem : b ∈ others) (region : a.region = .heap b.1) :
    (M'.memory.writeDescriptor a d').Owns (·.Established tables) [d'] tree := by
  have shape : M'.memory.SameShape (M'.memory.writeDescriptor a d') := .of_writeFields ..
  have distinct := h.accounts.distinct
  rw [List.map_append] at distinct
  apply h.owns.congr shape.placement shape.tables
  intro c inTree
  apply Memory.region?_writeFields_of_ne
  intro same
  -- A block of the tree is none of the others.
  have number : c = b.1 := Region.heap.inj (same.trans region)
  exact (List.nodup_append.mp distinct).2.2 c inTree b.1 (List.mem_map_of_mem mem) number

/-- What the descriptor points to can be found again. -/
theorem finds (h : M.Exchanges tables others M' d' tree) (same : M.memory.tables = tables) :
    M'.memory.Finds d' := by
  have owners : ∀ d, Descriptor.Established tables d → d.isAllocated = true → d.isOwner = true :=
    fun _ fine => fine.isOwner_of_isAllocated
  refine h.accounts.placed.finds (fun _ => h.owns.exists_block_of_base owners List.mem_cons_self) ?_
  rw [h.pointers.tables, same]
  exact (h.owns.fine d' List.mem_cons_self).table

end Machine.Exchanges

namespace Session

/-- The local descriptors are established and own the blocks of a forest, which are all blocks on
    the heap. -/
structure Accounted (tables : Array DerivedType) (s : Session) (f : Forest) : Prop where
  sameTables : s.machine.memory.tables = tables
  owns : s.machine.memory.Owns (·.Established tables) s.locals f
  accounts : s.machine.Accounts f.blocks

variable {tables : Array DerivedType} {s : Session} {p : Place} {d d' : Descriptor}
  {others : List (Nat × Nat)} {tree : Forest} {M' : Machine}

/-- A new session owns nothing. -/
theorem accounted_start (loader : Loader) {tables : Array DerivedType}
    (apart : TablesApart loader.table tables.size) (buffers : List (List UInt8)) (count : Nat) :
    (start loader tables buffers count).Accounted tables .nil where
  sameTables := rfl
  owns := .of_idle fun d mem => by
    obtain rfl := List.eq_of_mem_replicate mem
    exact ⟨.zeroed tables, rfl⟩
  accounts := .of_empty apart rfl rfl

/-- A descriptor at a place can be read. -/
theorem read_of_at? (there : s.at? p = some d) (placed : s.PlacedIn p others) :
    Dialogue.read p s = .ok d s := by
  cases p with
  | localVariable index =>
    have current : (get : Dialogue Session) s = .ok s s := rfl
    rw [Dialogue.read, Dialogue.bind_of_ok current, show s.locals[index]? = some d from there]
    rfl
  | stored a => exact Dialogue.onMachine_of_ok (Run.readDescriptor_of_fits (placed a rfl).2 there)

/-- After an operation, the descriptor that it leaves can be put in place. -/
theorem exists_write (same : s.machine.memory.tables = tables)
    (there : s.at? p = some d) (placed : s.PlacedIn p others)
    (exchanged : s.machine.Exchanges tables others M' d' tree) :
    ∃ s', Dialogue.write p d' ⟨M', s.locals⟩ = .ok () s' ∧ s.Updates s' p d' others ∧
      s'.machine.memory.Owns (·.Established tables) [d'] tree ∧
      s'.machine.Accounts (tree.blocks ++ others) ∧ M'.memory.SameShape s'.machine.memory := by
  cases p with
  | localVariable index =>
    obtain ⟨lt, _⟩ := List.getElem?_eq_some_iff.mp there
    refine ⟨⟨M', s.locals.set index d'⟩, rfl, ⟨exchanged.keepsBlocks _, fun i ne => ?_, ?_⟩,
      exchanged.owns,
      exchanged.accounts, .refl _⟩
    · exact List.getElem?_set_ne fun eq => ne (by rw [eq])
    · exact List.getElem?_set_self lt
  | stored a =>
    -- The block with the place is one of the others, so the operation left it there.
    obtain ⟨⟨b, mem, region⟩, room⟩ := placed a rfl
    have room' : M'.memory.spans a descriptorBytes :=
      (Memory.spans_congr (by rw [region, exchanged.region? b mem]) _).trans room
    have stored : Run.writeDescriptor a d' M' =
        .ok () (M'.withMemory (M'.memory.writeDescriptor a d')) := Run.writeDescriptor_of_fits room'
    have shape : M'.memory.SameShape (M'.memory.writeDescriptor a d') := .of_writeFields ..
    have keeps := (exchanged.keepsBlocks (.stored a)).writeDescriptor d' room'
    exact ⟨_, Dialogue.onMachine_of_ok (s := ⟨M', s.locals⟩) stored,
      ⟨keeps, fun _ _ => rfl, Memory.descriptor?_writeDescriptor room' (exchanged.finds same)⟩,
      exchanged.owns_writeDescriptor mem region, exchanged.accounts.congr shape rfl, shape⟩

/-- A session goes on after an operation on the descriptor at a place: it holds the descriptor that
    the operation leaves in this place, other local descriptors are as they were, and the accounts
    are right. -/
structure GoesOn (tables : Array DerivedType) (s : Session) (M' : Machine) (p : Place)
    (d' : Descriptor) (s' : Session) : Prop where
  written : Dialogue.write p d' ⟨M', s.locals⟩ = .ok () s'
  shape : M'.memory.SameShape s'.machine.memory
  locals : ∀ index, .localVariable index ≠ p → s'.locals[index]? = s.locals[index]?
  holds : s'.Holds p d'
  accounted : ∃ f', s'.Accounted tables f'

/-- An operation on a descriptor in memory changes no local descriptor. -/
theorem GoesOn.locals_eq {s' : Session} {a : Address} (h : s.GoesOn tables M' (.stored a) d' s') :
    s'.locals = s.locals :=
  List.ext_getElem? fun index => h.locals index nofun

namespace Accounted

variable {f : Forest}

/-- An operation on a held descriptor finds it in its place, with a tree, and what it exchanges for
    them is accounted for. -/
theorem exists_exchange (h : s.Accounted tables f) (holds : s.Holds p d) :
    ∃ tree others, s.machine.memory.Owns (·.Established tables) [d] tree ∧
      s.machine.Accounts (tree.blocks ++ others) ∧ Dialogue.read p s = .ok d s ∧
      ∀ M' d' tree', s.machine.Exchanges tables others M' d' tree' → ∃ s',
      s.GoesOn tables M' p d' s' := by
  obtain ⟨tree, others, owns, split, placed, replace⟩ :=
    holds.exists_update h.owns h.accounts.distinct fun _ fine => fine.isOwner_of_isAllocated
  refine ⟨tree, others, owns, h.accounts.perm split, read_of_at? holds.at?_eq placed, ?_⟩
  intro M' d' tree' exchanged
  obtain ⟨s', written, updates, owns', accounts, shape⟩ :=
    exists_write h.sameTables holds.at?_eq placed exchanged
  obtain ⟨holds', f', ownsAll, split'⟩ := replace s' d' tree' updates owns'
  have same := shape.tables.trans (exchanged.pointers.tables.trans h.sameTables)
  exact ⟨s', written, shape, updates.locals, holds', f', same, ownsAll, accounts.perm split'.symm⟩

/-- A change of a held descriptor without its storage keeps the accounts. -/
theorem exists_update (h : s.Accounted tables f) (holds : s.Holds p d)
    (change : Descriptor → Except Fault Descriptor)
    (changes : ∀ tree others, s.machine.memory.Owns (·.Established tables) [d] tree →
      s.machine.Accounts (tree.blocks ++ others) →
      ∃ d' tree', change d = .ok d' ∧ s.machine.Exchanges tables others s.machine d' tree') :
    ∃ s' d', change d = .ok d' ∧ Dialogue.update p change s = .ok () s' ∧
      s.GoesOn tables s.machine p d' s' := by
  obtain ⟨tree, others, owns, accounts, there, put⟩ := h.exists_exchange holds
  obtain ⟨d', tree', changed, exchanged⟩ := changes tree others owns accounts
  obtain ⟨s', goesOn⟩ := put s.machine d' tree' exchanged
  exact ⟨s', d', changed, (Dialogue.update_of_ok there changed).trans goesOn.written, goesOn⟩

/-- To make a new allocatable of a held descriptor without storage keeps the accounts. -/
theorem exists_make (h : s.Accounted tables f) (holds : s.Holds p d)
    (idle : d.isAllocated = false) (make : Descriptor → Except Fault Descriptor)
    (makes : ∃ d', make d = .ok d' ∧ d'.Established tables ∧ d'.isAllocated = false) :
    ∃ s' d', make d = .ok d' ∧ Dialogue.update p make s = .ok () s' ∧
      s.GoesOn tables s.machine p d' s' := by
  obtain ⟨d', made, fine, idle'⟩ := makes
  exact h.exists_update holds make fun tree others owns accounts =>
    ⟨d', .nil, made, Descriptor.exchanges_of_idle owns accounts idle fine idle'⟩

/-- An allocation statement on a held descriptor keeps the accounts. -/
theorem exists_statement (h : s.Accounted tables f) (holds : s.Holds p d)
    (operation : Descriptor → Run (Descriptor × Outcome))
    (ends : ∀ tree others, s.machine.memory.Owns (·.Established tables) [d] tree →
      s.machine.Accounts (tree.blocks ++ others) →
      ∃ M' d' outcome tree', operation d s.machine = .ok (d', outcome) M' ∧
        s.machine.Exchanges tables others M' d' tree') :
    ∃ s' M' d' outcome, operation d s.machine = .ok (d', outcome) M' ∧
      Dialogue.statement p operation s = .ok outcome s' ∧ s.GoesOn tables M' p d' s' := by
  obtain ⟨tree, others, owns, accounts, there, put⟩ := h.exists_exchange holds
  obtain ⟨M', d', outcome, tree', ended, exchanged⟩ := ends tree others owns accounts
  obtain ⟨s', goesOn⟩ := put M' d' tree' exchanged
  exact ⟨s', M', d', outcome, ended, Dialogue.statement_of_ok there ended goesOn.written, goesOn⟩

end Accounted

end Session

end DerivedTypes
