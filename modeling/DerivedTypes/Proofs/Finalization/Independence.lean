import DerivedTypes.Proofs.DerivedType.ParentField
import DerivedTypes.Proofs.Finalization.Outline
import DerivedTypes.Proofs.Finalization.Silence
import DerivedTypes.Proofs.Ownership.Deallocation

namespace DerivedTypes

/-!
# What finalization cannot change

Two teardowns may differ in whether they finalize, and in the marks of descriptors in memory and in
the tables. They still release the same components, free the same blocks and go on with the same
parents, in the same order, and leave memories that differ in the same marks only
(`Run.ReleaseAlike`). What a mark and the argument decide is whether finalizers are called.

* `TeardownStep.Prepared.releaseAlike`: steps with the same outline release alike;
* `DerivedType.destroyScalar_releaseAlike`, `DerivedType.destroyComponents_releaseAlike`,
  `Descriptor.destroyElements_releaseAlike`, `Descriptor.deallocate_releaseAlike`: so does every
  kind of teardown;
* `DerivedType.finalization_changes_no_release`: all of them release alike, and call nothing where
  they do not finalize;
* `DerivedType.archive_closes_file`: the mark of a parent field forbids nothing.
-/

open TeardownStep

/-- Two operations, each on a machine of its own, end well with related results. They release, free
    and go on with the same in the same order, and leave memories that differ in marks only. -/
def Run.ReleaseAlike {α : Type} (x y : Run α) (related : α → α → Prop) (M N : Machine)
    (marked : Address → Prop) :
    Prop :=
  ∃ (a b : α) (seen seen' : List Event) (m n : Memory),
    x M = .ok a ((M.recordAll seen).withMemory m) ∧ y N = .ok b ((N.recordAll seen').withMemory n) ∧
    related a b ∧ seen'.filterMap Event.outline? = seen.filterMap Event.outline? ∧
    m.SameButMarks n marked

section

variable {env : Environment} {M N : Machine} {marked : Address → Prop} {P : Descriptor → Prop}
  {f : Forest}

/-- Operations that do nothing. -/
theorem Run.ReleaseAlike.of_unchanged {α : Type} {x y : Run α} {related : α → α → Prop} {a b : α}
    (ran : x M = .ok a M) (ran' : y N = .ok b N) (results : related a b)
    (same : M.memory.SameButMarks N.memory marked) : Run.ReleaseAlike x y related M N marked := by
  refine ⟨a, b, [], [], M.memory, N.memory, ?_, ?_, results, rfl, same⟩
  · rw [ran, Machine.recordAll_nil]
    rfl
  · rw [ran', Machine.recordAll_nil]
    rfl

/-- Prepared steps release as all steps with the same outline do. -/
theorem TeardownStep.Prepared.releaseAlike (inert : env.Inert) {Q : Address → Prop}
    {steps steps' : List TeardownStep} (h : Prepared env.context M.memory Q steps f)
    (alike : ∀ s, Q s → M.memory.spans s descriptorBytes → M.memory.ReadsAlike N.memory s)
    (same : M.memory.SameButMarks N.memory marked) (outlines : outline steps' = outline steps) :
    Run.ReleaseAlike (steps.forM (run env M.memory.byteCount))
      (steps'.forM (run env N.memory.byteCount)) Eq M N
      marked := by
  obtain ⟨h', events, owners⟩ := h.followAlike same.size alike outlines
  obtain ⟨m, ran, torn⟩ := h.exists_forM inert
  obtain ⟨n, ran', torn'⟩ := h'.exists_forM inert
  exact ⟨(), (), _, _, m, n, ran, ran', rfl, events, same.tornDown torn (owners ▸ torn')⟩

/-- Where descriptors own a forest, steps that release them release as all steps with the same
    outline do. -/
theorem Memory.Ready.releaseAlike {slots others : List Address} (ready : M.memory.Ready P slots f)
    (inert : env.Inert) (same : M.memory.SameButMarks N.memory marked)
    (fair : ∀ s, marked s → M.memory.MayHold slots s) {steps steps' : List TeardownStep}
    (order : (released steps ++ others).Perm slots) (resolved : ∀ step ∈ steps, step.Resolved)
    (outlines : outline steps' = outline steps) :
    Run.ReleaseAlike (steps.forM (run env M.memory.byteCount))
      (steps'.forM (run env N.memory.byteCount)) Eq M N
      marked := by
  obtain ⟨g, readyAll, _⟩ := ready.perm order.symm
  obtain ⟨k, readySteps⟩ := readyAll.of_append
  obtain ⟨j, prepared, _⟩ : ∃ j, Prepared env.context M.memory
      (fun s => M.memory.spans s descriptorBytes → M.memory.ReadsAlike N.memory s) steps j ∧
      k.Similar j :=
    readySteps.exists_prepared (.refl _) resolved fun s reached =>
      ready.readsAlike same fair (reached.mono fun t mem =>
        order.mem_iff.mp (List.mem_append_left _ mem))
  exact prepared.releaseAlike inert (fun _ alike room => alike room) same outlines

namespace DerivedType

variable {ty ty' : DerivedType} {a : Address} (inert : env.Inert)
  (sound : ty.Throughout TeardownSound) (ready : M.memory.Ready P (ty.slots a) f)
  (same : M.memory.SameButMarks N.memory marked)
  (fair : ∀ s, marked s → M.memory.MayHold (ty.slots a) s)
  (sameMarks : ty'.withoutMarks = ty.withoutMarks)
include inert sound ready same fair sameMarks

/-- Teardowns of instances whose types differ in marks release alike. -/
theorem destroyScalar_releaseAlike (finalize finalize' : Bool) :
    Run.ReleaseAlike (ty.destroyScalar env a finalize) (ty'.destroyScalar env a finalize')
      Eq M N marked := by
  have order := released_scalarSteps env.context sound a finalize
  rw [← List.append_nil (released _)] at order
  rw [destroyScalar_eq, destroyScalar_eq]
  refine ready.releaseAlike inert same fair order
    (resolved_scalarSteps env.context sound a finalize) ?_
  rw [outline_scalarSteps, outline_scalarSteps, sameMarks]

/-- Teardowns of components whose types differ in marks release alike. -/
theorem destroyComponents_releaseAlike (finalize finalize' : Bool) :
    Run.ReleaseAlike (ty.destroyComponents env a finalize)
      (ty'.destroyComponents env a finalize') Eq M N
      marked := by
  rw [destroyComponents_eq, destroyComponents_eq]
  refine ready.releaseAlike inert same fair (released_componentSteps env.context sound a finalize)
    (resolved_componentSteps env.context sound a finalize) ?_
  rw [outline_componentSteps, outline_componentSteps, sameMarks]

end DerivedType

namespace Descriptor

variable {d d' : Descriptor}

/-- Teardowns of elements whose descriptors differ in marks release alike. -/
theorem destroyElements_releaseAlike {data : Option Address} (inert : env.Inert) (typed : d.Typed)
    (ready : M.memory.Ready P ({ d with base := data } : Descriptor).slots f)
    (same : M.memory.SameButMarks N.memory marked)
    (fair : ∀ s, marked s → M.memory.MayHold ({ d with base := data } : Descriptor).slots s)
    (sameMarks : d'.withoutMarks = d.withoutMarks) (finalize finalize' : Bool) :
    Run.ReleaseAlike (d.destroyElements env data finalize)
      (d'.destroyElements env data finalize') Eq M N
      marked := by
  cases data with
  | none => exact .of_unchanged rfl rfl rfl same
  | some data =>
    have order := released_arraySteps_withBase env.context typed data finalize
    rw [← List.append_nil (released _)] at order
    rw [destroyElements_eq, destroyElements_eq]
    refine ready.releaseAlike inert same fair order
      (resolved_arraySteps env.context typed data finalize) ?_
    rw [outline_arraySteps, outline_arraySteps, sameMarks]

/-- Deallocations of descriptors that differ in marks release alike. -/
theorem deallocate_releaseAlike (inert : env.Inert) (owns : M.memory.Owns P [d] f)
    (distinct : f.Distinct) (same : M.memory.SameButMarks N.memory marked)
    (fair : ∀ s, marked s → M.memory.MayHold d.slots s)
    (sameMarks : d'.withoutMarks = d.withoutMarks) (finalize finalize' : Bool) :
    Run.ReleaseAlike (d.deallocate env finalize) (d'.deallocate env finalize')
      (fun r r' => r'.1.withoutMarks = r.1.withoutMarks ∧ r'.2 = r.2) M N marked := by
  cases owner : d.isOwner with
  | false =>
    have owner' : d'.isOwner = false := by
      rw [← d'.isOwner_withoutMarks, sameMarks, d.isOwner_withoutMarks, owner]
    have allocatable : d'.isAllocatable = d.isAllocatable := by
      rw [← d'.isAllocatable_withoutMarks, sameMarks, d.isAllocatable_withoutMarks]
    refine .of_unchanged (deallocate_of_not_owner owner finalize)
      (deallocate_of_not_owner owner' finalize')
      ⟨sameMarks, ?_⟩ same
    rw [allocatable]
  | true =>
    obtain ⟨_, _, _, _, _, ready⟩ := owns.exists_ready owner distinct
    obtain ⟨block, size, inside, stores, prepared, _, similar⟩ :=
      exists_prepared env.context owner finalize owns
      distinct (Q := fun s => M.memory.spans s descriptorBytes → M.memory.ReadsAlike N.memory s)
        fun s reached =>
          ready.readsAlike same fair reached
    have apart := (similar.distinct distinct).not_mem_inside
    have outlines : outline (d'.storageSteps env.context finalize') =
        outline (d.storageSteps env.context finalize) := by
      rw [outline_storageSteps, outline_storageSteps, sameMarks]
    obtain ⟨prepared', events, owners⟩ :=
      prepared.followAlike same.size (fun _ alike room => alike room) outlines
    obtain ⟨m, ended, torn⟩ := exists_deallocate_of_prepared inert finalize stores prepared apart
    obtain ⟨n, ended', torn'⟩ := exists_deallocate_of_prepared inert finalize'
      (stores.of_withoutMarks_eq sameMarks same.size) prepared' apart
    refine ⟨_, _, _, _, m, n, ended, ended', ⟨?_, rfl⟩, ?_, same.tornDown torn (owners ▸ torn')⟩
    · rw [withoutMarks_withoutBase, withoutMarks_withoutBase, sameMarks]
    · rw [List.filterMap_append, List.filterMap_append, events, ← d'.freeEvents_withoutMarks,
        sameMarks, d.freeEvents_withoutMarks]

end Descriptor

end

/-! ### All teardowns -/

/-- Teardowns on two machines release alike whose types and descriptors, in the tables and in
    memory, differ in marks only. The descriptors concerned own a forest in the memory of the first
    machine, and a mark that differs is one of them or lies apart. -/
structure Environment.ReleasesAlike (env : Environment) (M N : Machine) (marked : Address → Prop)
    (P : Descriptor → Prop) (f : Forest) (finalize finalize' : Bool) : Prop where
  scalar : ∀ (ty ty' : DerivedType) (a : Address), ty'.withoutMarks = ty.withoutMarks →
    ty.Throughout DerivedType.TeardownSound → M.memory.Ready P (ty.slots a) f →
    (∀ s, marked s → M.memory.MayHold (ty.slots a) s) →
    Run.ReleaseAlike (ty.destroyScalar env a finalize)
      (ty'.destroyScalar env a finalize') Eq M N marked
  components : ∀ (ty ty' : DerivedType) (a : Address), ty'.withoutMarks = ty.withoutMarks →
    ty.Throughout DerivedType.TeardownSound → M.memory.Ready P (ty.slots a) f →
    (∀ s, marked s → M.memory.MayHold (ty.slots a) s) →
    Run.ReleaseAlike (ty.destroyComponents env a finalize)
      (ty'.destroyComponents env a finalize') Eq M N marked
  elements : ∀ (d d' : Descriptor) (data : Option Address), d'.withoutMarks =
    d.withoutMarks → d.Typed →
    M.memory.Ready P ({ d with base := data } : Descriptor).slots f →
    (∀ s, marked s → M.memory.MayHold ({ d with base := data } : Descriptor).slots s) →
    Run.ReleaseAlike (d.destroyElements env data finalize)
      (d'.destroyElements env data finalize') Eq M N marked
  storage : ∀ d d' : Descriptor, d'.withoutMarks = d.withoutMarks →
    M.memory.Owns P [d] f → f.Distinct →
    (∀ s, marked s → M.memory.MayHold d.slots s) →
    Run.ReleaseAlike (d.deallocate env finalize) (d'.deallocate env finalize')
      (fun r r' => r'.1.withoutMarks = r.1.withoutMarks ∧ r'.2 = r.2) M N marked

namespace DerivedType

/-- Finalization cannot change what is released: a teardown releases the same components, frees the
    same blocks with the same sizes and goes on with the same parents, in the same order, whether it
    finalizes or not, and whichever descriptors are marked; and it leaves the same memory but for
    the marks. Without finalization, nothing is called at any depth, nor is anything below a marked
    descriptor. -/
theorem finalization_changes_no_release {env : Environment} (inert : env.Inert) {M N : Machine}
    {marked : Address → Prop} (same : M.memory.SameButMarks N.memory marked) (P : Descriptor → Prop)
    (f : Forest) (finalize finalize' : Bool) :
    env.ReleasesAlike M N marked P f finalize finalize' ∧ env.Silent := by
  refine ⟨?_, env.silent⟩
  exact {
    scalar := fun _ _ _ sameMarks sound ready fair =>
      destroyScalar_releaseAlike inert sound ready same fair sameMarks finalize finalize'
    components := fun _ _ _ sameMarks sound ready fair =>
      destroyComponents_releaseAlike inert sound ready same fair sameMarks finalize finalize'
    elements := fun _ _ _ sameMarks typed ready fair =>
      Descriptor.destroyElements_releaseAlike inert typed ready same fair
        sameMarks finalize finalize'
    storage := fun _ _ sameMarks owns distinct fair =>
      Descriptor.deallocate_releaseAlike inert owns distinct same fair sameMarks
        finalize finalize' }

end DerivedType

namespace LinkedList

/-- Memory with two nodes, of which the first one forbids finalization. -/
def markedMemory : Memory := memory.write ((⟨.heap 0, 0⟩ : Address) + 20) [3]

/-- The two memories differ in the mark of the first node. -/
theorem sameButMarks : memory.SameButMarks markedMemory (· = ⟨.heap 0, 0⟩) :=
  .of_write (ready.spans _ first_mem_slots) (Memory.descriptor?_eq_some_iff.mp first_memory).flags
    (by decide)

end LinkedList

namespace DerivedType

open LinkedList

/-- A list of two nodes is deallocated alike with and without finalization, and its first node is
    torn down alike if it forbids finalization. -/
theorem list_released_alike :
    Run.ReleaseAlike ((list 0).deallocate environment true) ((list 0).deallocate environment false)
      (fun r r' => r'.1.withoutMarks = r.1.withoutMarks ∧ r'.2 = r.2) ⟨memory, #[]⟩
        ⟨memory, #[]⟩ (fun _ => False) ∧
    Run.ReleaseAlike (node.destroyScalar environment ⟨.heap 0, 0⟩ true)
      (node.destroyScalar environment ⟨.heap 0, 0⟩ true) Eq ⟨memory, #[]⟩ ⟨markedMemory, #[]⟩
        (· = ⟨.heap 0, 0⟩) ∧
    (node.destroyScalar environment ⟨.heap 0, 0⟩ false).CallsNothing := by
  have sameMemory := finalization_changes_no_release (M := ⟨memory, #[]⟩) (N := ⟨memory, #[]⟩) inert
    (.refl memory fun _ => False) (fun _ => True)
    (.cons 0 456 (.cons 1 456 .nil .nil) .nil) true false
  have otherMark :=
    finalization_changes_no_release (M := ⟨memory, #[]⟩) (N := ⟨markedMemory, #[]⟩) inert
    sameButMarks (fun _ => True) (.cons 1 456 .nil .nil) true true
  refine ⟨sameMemory.1.storage (list 0) (list 0) rfl owns (by decide) fun _ none => none.elim, ?_,
    sameMemory.2.scalar node ⟨.heap 0, 0⟩⟩
  refine otherMark.1.scalar node node ⟨.heap 0, 0⟩ rfl throughout_node ready ?_
  rintro s rfl
  exact .inl (.here first_mem_slots)

end DerivedType

/-! ### The mark of a parent field -/

namespace Files

/-- A file whose parent field is marked. -/
def archive : DerivedType :=
  { number := 1, name := "archive", parameters := [],
    components := [.parent "file" { Descriptor.row file 1 8 with flags := 3 }],
    procedures := [], image := none,
    size := 8, isSequence := false, isBindC := false : DerivedType }.summarize

/-- A buffer of the size of an archive. -/
def machine : Machine := ⟨.ofBuffers default #[file, archive] [.replicate 8 0], #[]⟩

end Files

namespace DerivedType

open Files

/-- A teardown does not look at the mark of a parent field: the file of an archive is closed,
    although the static descriptor of the field forbids it. -/
theorem archive_closes_file :
    archive.checkLayout = .ok () ∧
    (∃ c shape, archive.components = [c] ∧ c.embedded? = some (shape, file) ∧
      shape.isFinalizationSuppressed = true) ∧
    ∃ M', archive.destroyScalar LinkedList.environment ⟨.buffer 0, 0⟩ true machine = .ok () M' ∧
      M'.calls = [(close, .scalar ⟨.buffer 0, 0⟩)] := by
  have steps : archive.scalarSteps .host ⟨.buffer 0, 0⟩ true =
      [.enterComponents archive, .enterParent archive file,
        .finalizeScalar file close ⟨1⟩ ⟨.buffer 0, 0⟩,
        .enterComponents file] := by
    rw [scalarSteps_of_parent rfl rfl, scalarSteps_of_not_extension rfl,
      componentSteps_eq, componentSteps_eq]
    rfl
  have resolved : ∀ step ∈ archive.scalarSteps .host ⟨.buffer 0, 0⟩ true, step.Resolved := by
    rw [steps]
    simp [Resolved]
  have ended := forM_of_idle (M := machine) machine.memory.byteCount resolved
    (fun step _ => keepsMemory_of_inert LinkedList.inert step)
      (by rw [steps]; exact fun _ mem => nomatch mem)
  have same :=
    congrFun (destroyScalar_eq LinkedList.environment archive ⟨.buffer 0, 0⟩ true) machine
  refine ⟨by decide, ⟨_, _, rfl, rfl, by decide⟩, _, same.trans ended, ?_⟩
  rw [Machine.calls_recordAll, filterMap_call?_idleEvents, steps]
  rfl

end DerivedType

end DerivedTypes
