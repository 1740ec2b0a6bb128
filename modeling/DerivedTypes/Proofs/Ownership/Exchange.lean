import DerivedTypes.Proofs.Allocation.Grant
import DerivedTypes.Proofs.Ownership.Ledger

namespace DerivedTypes

/-!
# Operations that exchange trees

An operation on one descriptor takes the tree that the descriptor owns and leaves a descriptor that
owns another one, or the same. What other descriptors own stays as it is, and the accounts stay
right: `Machine.Exchanges` says so, and there is a lemma for each operation on allocatables.
-/

/-- A machine comes out of another by an operation that leaves the descriptor `d'`. It owns a tree
    of its own; the blocks `others` and the rest of the accounts are as before, and pointers to live
    blocks still find them. -/
structure Machine.Exchanges (tables : Array DerivedType) (others : List (Nat × Nat))
    (M M' : Machine) (d' : Descriptor) (tree : Forest) : Prop where
  pointers : M.memory.KeepsPointers M'.memory
  region? : ∀ b ∈ others, M'.memory.region? (.heap b.1) = M.memory.region? (.heap b.1)
  owns : M'.memory.Owns (·.Established tables) [d'] tree
  accounts : M'.Accounts (tree.blocks ++ others)

namespace Descriptor

variable {env : Environment} {tables : Array DerivedType} {others : List (Nat × Nat)} {M : Machine}
  {d d' bounded : Descriptor} {tree : Forest} {lower upper : List Subscript} {size : Nat}

/-- A descriptor without storage may become any other one. -/
theorem exchanges_of_idle (owns : M.memory.Owns (·.Established tables) [d] tree)
    (accounts : M.Accounts (tree.blocks ++ others)) (idle : d.isAllocated = false)
    (fine : d'.Established tables) (idle' : d'.isAllocated = false) :
    M.Exchanges tables others M d' .nil := by
  have before := owns.fine d List.mem_cons_self
  obtain rfl := owns.eq_nil_of_idle (by rw [before.isOwner_eq, idle])
  exact ⟨.of_placement rfl rfl, fun _ _ =>
    rfl, .idle fine (by rw [fine.isOwner_eq, idle']) .nil, accounts⟩

/-- A descriptor may become another one of the same storage. -/
theorem exchanges_of_sameStorage (owns : M.memory.Owns (·.Established tables) [d] tree)
    (accounts : M.Accounts (tree.blocks ++ others)) (same : d.SameStorage d') :
    M.Exchanges tables others M d' tree := by
  have fine := same.established (owns.fine d List.mem_cons_self)
  exact ⟨.of_placement rfl rfl, fun _ _ => rfl, same.owns fine owns, accounts⟩

/-- An allocation that is granted leaves a descriptor with a new block, which owns nothing. -/
theorem exists_allocate_exchanges_of_granted (inert : env.Inert) (sound : SoundTables tables)
    (owns : M.memory.Owns (·.Established tables) [d] tree)
    (accounts : M.Accounts (tree.blocks ++ others))
    (asked : d.allocationSize lower upper = .ok size)
    (bounds : d.setBounds lower upper = .ok bounded) (granted : env.grants M size = true) :
    ∃ M', d.allocate env lower upper M = .ok (bounded.withStorage M.nextBlock, .ok ()) M' ∧
      M.Exchanges tables others M' (bounded.withStorage M.nextBlock)
        (.cons M.memory.heap.size size .nil .nil) := by
  have fine := owns.fine d List.mem_cons_self
  obtain ⟨_, idle, _⟩ := of_allocationSize_eq_ok asked
  obtain rfl := owns.eq_nil_of_idle (by rw [fine.isOwner_eq, idle])
  obtain ⟨M', ended, fine', backs, zeroed, log, shape, kept⟩ :=
    exists_allocate_of_granted inert sound fine asked bounds granted
  have contents : M'.memory.Owns (·.Established tables)
      ((bounded.withStorage M.nextBlock).slots.map M'.memory.slotValue) .nil := by
    refine .of_idle fun e mem => ?_
    obtain ⟨s, slot, rfl⟩ := List.mem_map.mp mem
    rw [Memory.slotValue_of_descriptor? (zeroed s slot)]
    exact ⟨.zeroed tables, rfl⟩
  have hasRoom := env.hasRoom M size granted
  have pointers : M.memory.KeepsPointers (M.withBlock env size).memory := .allocate hasRoom
  refine ⟨M', ended, pointers.trans_of_placement shape.placement shape.tables,
    fun b mem => ?_, ?_, ?_⟩
  · refine kept _ fun same => accounts.not_mem_next ?_
    rw [← Region.heap.inj same]
    exact List.mem_map_of_mem mem
  · exact .own fine' backs (fun s mem => by rw [zeroed s mem]; rfl) contents .nil
  · exact accounts.allocate hasRoom (elements_le_blockSize backs.size).2 log shape

/-- An allocation ends without a fault, and whether it succeeds or not, the accounts stay right. -/
theorem exists_allocate_exchanges (inert : env.Inert) (sound : SoundTables tables)
    (lower upper : List Subscript) (owns : M.memory.Owns (·.Established tables) [d] tree)
    (accounts : M.Accounts (tree.blocks ++ others)) :
    ∃ M' d' outcome tree', d.allocate env lower upper M = .ok (d', outcome) M' ∧
      M.Exchanges tables others M' d' tree' := by
  have fine := owns.fine d List.mem_cons_self
  cases asked : d.allocationSize lower upper with
  | error e =>
    -- Nothing happens.
    exact ⟨M, d, _, tree, allocate_of_error asked, .of_placement rfl rfl, fun _ _ => rfl, owns,
      accounts⟩
  | ok size =>
    obtain ⟨bounded, bounds⟩ := exists_setBounds fine.rank_le lower upper
    cases granted : env.grants M size with
    | false =>
      -- The descriptor gets new bounds and no storage.
      obtain ⟨_, idle, _⟩ := of_allocationSize_eq_ok asked
      have idle' : bounded.isAllocated = false := by
        obtain ⟨slots, rfl⟩ := eq_of_setBounds bounds
        exact idle
      have exchanged := exchanges_of_idle owns accounts idle (fine.setBounds bounds) idle'
      refine ⟨_, bounded, _, .nil, allocate_of_refused asked bounds granted, .of_placement rfl rfl,
        fun _ _ => rfl, exchanged.owns, ?_⟩
      exact exchanged.accounts.congr (.refl _) (by simp [Event.heapUse?])
    | true =>
      obtain ⟨M', ended, exchanged⟩ :=
        exists_allocate_exchanges_of_granted inert sound owns accounts asked bounds granted
      exact ⟨M', _, _, _, ended, exchanged⟩

/-- An owner is deallocated, and the tree that it owned is off the account. -/
theorem exists_deallocate_exchanges_of_owner (inert : env.Inert) (finalize : Bool)
    (owns : M.memory.Owns (·.Established tables) [d] tree)
    (accounts : M.Accounts (tree.blocks ++ others)) (owner : d.isOwner = true) :
    ∃ M', d.deallocate env finalize M = .ok ({ d with base := none }, .ok ()) M' ∧
      M.Exchanges tables others M' { d with base := none } .nil := by
  have fine := owns.fine d List.mem_cons_self
  have numbers := accounts.distinct
  rw [List.map_append] at numbers
  obtain ⟨distinct, _, apart⟩ := List.nodup_append.mp numbers
  obtain ⟨M', ended, released⟩ := exists_deallocate inert owner finalize owns distinct
  have accounts' := accounts.release (.refl _) released
  obtain ⟨_, _, _, _, memory⟩ := released
  refine ⟨M', ended, .of_placement memory.placement memory.tables, fun b mem => ?_, ?_, accounts'⟩
  · refine memory.region? (fun c inTree same => ?_) fun _ slot => nomatch slot
    cases same
    exact apart _ inTree _ (List.mem_map_of_mem mem) rfl
  · exact .idle fine.withoutBase (Bool.and_false _) .nil

/-- A deallocation ends without a fault, and the accounts stay right. -/
theorem exists_deallocate_exchanges (inert : env.Inert) (finalize : Bool)
    (owns : M.memory.Owns (·.Established tables) [d] tree)
    (accounts : M.Accounts (tree.blocks ++ others)) :
    ∃ M' d' outcome tree', d.deallocate env finalize M = .ok (d', outcome) M' ∧
      M.Exchanges tables others M' d' tree' := by
  cases owner : d.isOwner with
  | true =>
    obtain ⟨M', ended, exchanged⟩ :=
      exists_deallocate_exchanges_of_owner inert finalize owns accounts owner
    exact ⟨M', _, _, _, ended, exchanged⟩
  | false =>
    exact ⟨M, d, _, tree, deallocate_of_not_owner owner finalize, .of_placement rfl rfl,
      fun _ _ => rfl, owns, accounts⟩

end Descriptor

end DerivedTypes
