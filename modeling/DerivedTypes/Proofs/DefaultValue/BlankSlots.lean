import DerivedTypes.Proofs.DefaultValue.PlainRecursion
import DerivedTypes.Proofs.Teardown.Idle

namespace DerivedTypes

/-!
# Default values before teardowns

A teardown looks at all descriptors in an instance, so default initialization must have been there
before. Descriptors inside of what initializes itself are left to the image or to the code of the
initializer. All others are `DerivedType.plainSlots`, and default initialization leaves zeros in
them, whatever was in memory: an outer fill reaches the descriptors of the instance, and each
embedded element that has descriptors is either visited after that or left as the fill made it.

* `Memory.ChangedInside`: two memories differ in nothing but the bytes of a span;
* `Part.exists_forM`: what happens in one of several parts that lie apart depends on this part
  alone;
* `DerivedType.exists_defaultSteps_blank`: default initialization stays in the instance and leaves
  zeros in its plain descriptors;
* `DerivedType.setDefault_then_destroy`: if these are all there are, a teardown that follows finds
  nothing to release.
-/

/-! ### Changes inside a span -/

namespace Memory

/-- Two memories differ in nothing but the bytes of a span. -/
structure ChangedInside (m m' : Memory) (a : Address) (n : Nat) : Prop where
  shape : m.SameShape m'
  byte? : ∀ b : Address, ¬ b.InSpan a n → m'.byte? b = m.byte? b

namespace ChangedInside

variable {m m' m'' : Memory} {a : Address} {n : Nat}

/-- Nothing has changed. -/
theorem refl (m : Memory) (a : Address) (n : Nat) :
    m.ChangedInside m a n := ⟨.refl m, fun _ _ => rfl⟩

/-- What changes inside twice has changed inside. -/
theorem trans (h : m.ChangedInside m' a n) (h' : m'.ChangedInside m'' a n) :
    m.ChangedInside m'' a n where
  shape := h.shape.trans h'.shape
  byte? := fun b outside => (h'.byte? b outside).trans (h.byte? b outside)

/-- What differs inside a part differs inside the whole. -/
theorem of_part {i k : Nat} (h : m.ChangedInside m' (a + i) k) (le : i + k ≤ n) :
    m.ChangedInside m' a n where
  shape := h.shape
  byte? := fun b outside => h.byte? b fun inside => outside (inside.of_sub le)

/-- A store changes memory inside any bytes that it lies in. -/
theorem of_write {bytes : List UInt8} (room : m.Admits a n) (le : bytes.length ≤ n) :
    m.ChangedInside (m.write a bytes) a n where
  shape := .of_write ..
  byte? := fun b outside => by
    have fits : m.Admits a bytes.length := by
      have part := room.sub (i := 0) (k := bytes.length) (by omega)
      rwa [Address.add_zero] at part
    have unreached : ¬ Store.Reaches ⟨a, bytes⟩ b := fun reached => outside <|
      Address.InSpan.of_sub (i := 0) reached (by simpa using le)
    rw [byte?_write_of_admits (s := ⟨a, bytes⟩) fits,
      Store.byte?_eq_none_iff.mpr unreached, Option.none_or]

/-- Other regions are as they were. -/
theorem region?_of_ne (h : m.ChangedInside m' a n) {region : Region} (ne : region ≠ a.region) :
    m'.region? region = m.region? region :=
  region?_ext (h.shape.size region) fun _ => h.byte? _ fun inside => ne inside.1

/-- There is room for what there was room for. -/
theorem admits (h : m.ChangedInside m' a n) {b : Address} {k : Nat} (room : m.Admits b k) :
    m'.Admits b k := by
  rw [Admits, spans_of_size (h.shape.size _)]
  exact room

end ChangedInside

/-- All bytes of the descriptor at an address are zero. -/
def BlankAt (m : Memory) (s : Address) : Prop :=
  ∀ b : Address, b.InSpan s descriptorBytes → m.byte? b = some 0

/-- A descriptor of zeros owns no storage. -/
theorem BlankAt.vacant {m : Memory} {s : Address} (blank : m.BlankAt s)
    (room : m.spans s descriptorBytes) :
    m.Vacant s := by
  refine .of_spans room ?_
  rw [ownsStorage, blank _ (Address.inSpan_add (by decide))]
  rfl

end Memory

/-! ### Parts one after the other -/

namespace Part

variable {parts : List Part} {f : Part → Run Unit} {M : Machine}

/-- Operations on parts that lie apart come to an end if each of them does. What one of them finds
    in its part was there from the beginning, and what it leaves there stays. -/
theorem exists_forM (apart : parts.Pairwise Apart)
    (each : ∀ p ∈ parts, ∀ N : Machine, N.memory.Admits p.address p.size →
      ∃ N', f p N = .ok () N' ∧ N.memory.ChangedInside N'.memory p.address p.size)
    (room : ∀ p ∈ parts, M.memory.Admits p.address p.size) :
    ∃ M', forM parts f M = .ok () M' ∧ M.memory.SameShape M'.memory ∧
      (∀ b : Address, (∀ p ∈ parts, ¬ b.InSpan p.address p.size) →
        M'.memory.byte? b = M.memory.byte? b) ∧
      ∀ p ∈ parts, ∃ N N' : Machine, f p N = .ok () N' ∧ N.memory.Admits p.address p.size ∧
        ∀ b : Address, b.InSpan p.address p.size →
          N.memory.byte? b = M.memory.byte? b ∧ M'.memory.byte? b = N'.memory.byte? b := by
  induction parts generalizing M with
  | nil => exact ⟨M, rfl, .refl _, fun _ _ => rfl, by simp⟩
  | cons p rest ih =>
    obtain ⟨head, tail⟩ := List.pairwise_cons.mp apart
    have here := room p List.mem_cons_self
    obtain ⟨M₁, first, changed⟩ := each p List.mem_cons_self M here
    obtain ⟨M₂, others, shape, nowhere, local'⟩ := ih tail
      (fun q mem => each q (List.mem_cons_of_mem _ mem))
      fun q mem => changed.admits (room q (List.mem_cons_of_mem _ mem))
    refine ⟨M₂, (Run.forM_cons_of_ok first).trans others, changed.shape.trans shape, ?_, ?_⟩
    · intro b outside
      rw [nowhere b fun q mem => outside q (List.mem_cons_of_mem _ mem),
        changed.byte? b (outside p List.mem_cons_self)]
    · intro q mem
      rcases List.mem_cons.mp mem with rfl | mem
      · exact ⟨M, M₁, first, here, fun b inside =>
          ⟨rfl, nowhere b fun q mem => head q mem b inside⟩⟩
      · obtain ⟨N, N', run, admits, same⟩ := local' q mem
        refine ⟨N, N', run, admits, fun b inside => ⟨?_, (same b inside).2⟩⟩
        rw [(same b inside).1, changed.byte? b fun inP => head q mem b inP inside]

/-- If the parts lie in one stretch of bytes, nothing outside that changes. -/
theorem exists_forM_inside {a : Address} {n : Nat} (apart : parts.Pairwise Apart)
    (within : ∀ p ∈ parts, ∃ i, p.address = a + i ∧ i + p.size ≤ n)
    (each : ∀ p ∈ parts, ∀ N : Machine, N.memory.Admits p.address p.size →
      ∃ N', f p N = .ok () N' ∧ N.memory.ChangedInside N'.memory p.address p.size)
    (room : M.memory.Admits a n) :
    ∃ M', forM parts f M = .ok () M' ∧ M.memory.ChangedInside M'.memory a n ∧
      ∀ p ∈ parts, ∃ N N' : Machine, f p N = .ok () N' ∧ N.memory.Admits p.address p.size ∧
        ∀ b : Address, b.InSpan p.address p.size →
          N.memory.byte? b = M.memory.byte? b ∧ M'.memory.byte? b = N'.memory.byte? b := by
  obtain ⟨M', run, shape, nowhere, alone⟩ := exists_forM apart each fun p mem => by
    obtain ⟨i, begins, le⟩ := within p mem
    rw [begins]
    exact room.sub le
  refine ⟨M', run, ⟨shape, fun b outside => nowhere b fun p mem here => outside ?_⟩, alone⟩
  obtain ⟨i, begins, le⟩ := within p mem
  rw [begins] at here
  exact here.of_sub le

end Part

/-! ### Steps -/

namespace DefaultStep

variable {env : Environment} {ty : DerivedType} {a : Address} {M : Machine}

/-- An image is copied into the instance and nowhere else. -/
theorem exists_run_copyImage (env : Environment) (image : List UInt8)
    (room : M.memory.Admits a ty.size.toNat) :
    ∃ M', (copyImage ty image a).run env M = .ok () M' ∧
      M.memory.ChangedInside M'.memory a ty.size.toNat := by
  have le : (image.take ty.size.toNat).length ≤ ty.size.toNat := List.length_take_le ..
  have fits := room.sub (i := 0) (k := (image.take ty.size.toNat).length) (by omega)
  rw [Address.add_zero] at fits
  rw [DefaultStep.run, Run.bind_of_ok (Run.trace_apply ..),
    Run.writeBytes_of_fits (M := M.recordAll _) fits]
  exact ⟨_, rfl, .of_write room le⟩

/-- A zero fill leaves zeros in the instance and changes nothing else. -/
theorem exists_run_zeroFill (env : Environment) (room : M.memory.Admits a ty.size.toNat) :
    ∃ M', (zeroFill ty a).run env M = .ok () M' ∧ M.memory.ChangedInside M'.memory a ty.size.toNat ∧
      ∀ b : Address, b.InSpan a ty.size.toNat → M'.memory.byte? b = some 0 := by
  have fits : M.memory.Admits a (List.replicate ty.size.toNat (0 : UInt8)).length := by
    simpa using room
  rw [DefaultStep.run, Run.bind_of_ok (Run.trace_apply ..), Run.fillZero_eq_writeBytes,
    Run.writeBytes_of_fits (M := M.recordAll _) fits]
  refine ⟨_, rfl, .of_write room (by simp), fun b inside => ?_⟩
  rw [Machine.memory_withMemory, Machine.memory_recordAll,
    Memory.byte?_write_of_admits (s := ⟨a, .replicate ty.size.toNat 0⟩) fits,
    Store.byte?_zeros inside, Option.some_or]

/-- A call changes memory inside the instance if the code of the initializer does. -/
theorem exists_run_callInitializer (p : Procedure) (entry : EntryPoint)
    (inside : M.memory.ChangedInside (env.code entry (.scalar a) M.memory).2 a ty.size.toNat) :
    ∃ M', (callInitializer ty p entry a).run env M = .ok () M' ∧
      M.memory.ChangedInside M'.memory a ty.size.toNat := by
  rw [DefaultStep.run, Run.bind_of_ok (Run.trace_apply ..), Run.bind_of_ok (Run.call_apply ..)]
  exact ⟨_, rfl, inside⟩

end DefaultStep

/-! ### Plain descriptors -/

namespace DerivedType

/-- The descriptors in the instance at an address, at any depth, as far as nothing that they lie in
    initializes itself. -/
def plainSlots (ty : DerivedType) (a : Address) : List Address :=
  if ty.initializesItself then []
  else
    (ty.parts a).attach.flatMap fun ⟨p, mem⟩ =>
      match p, mem with
      | .slot s, _ => [s]
      | .element nested e, _ => nested.plainSlots e
termination_by sizeOf ty
decreasing_by exact sizeOf_of_mem_parts (by assumption)

end DerivedType

/-- The plain descriptors in a part. -/
def Part.plainSlots : Part → List Address
  | slot s => [s]
  | element nested e => nested.plainSlots e

namespace DerivedType

variable {ty : DerivedType} {a : Address}

/-- What initializes itself has no plain descriptors. -/
theorem plainSlots_of_initializesItself (itself : ty.initializesItself = true) :
    ty.plainSlots a = [] := by
  rw [plainSlots, if_pos itself]

/-- The plain descriptors of any other type are those of its parts. -/
theorem plainSlots_eq (plain : ty.initializesItself = false) :
    ty.plainSlots a = (ty.parts a).flatMap Part.plainSlots := by
  have members := List.attach_map_subtype_val (ty.parts a)
  conv_rhs => rw [← members, List.flatMap_map]
  rw [plainSlots, if_neg (by simp [plain])]
  congr 1
  ext ⟨p, _⟩ : 1
  cases p <;> rfl

/-- A type that initializes itself has no descriptors in its instances, at any depth. -/
def SelfContained (ty : DerivedType) : Prop :=
  ty.initializesItself → ∀ a, ty.slots a = []

/-- If no type that initializes itself has descriptors, then all descriptors are plain. -/
theorem plainSlots_eq_slots {ty : DerivedType} (blank : ty.Throughout SelfContained) (a : Address) :
    ty.plainSlots a = ty.slots a := by
  cases itself : ty.initializesItself with
  | true => rw [plainSlots_of_initializesItself itself, blank.own itself]
  | false =>
    rw [plainSlots_eq itself, slots_eq]
    refine List.flatMap_congr fun p part => ?_
    cases p with
    | slot s => rfl
    | element nested e =>
      have := sizeOf_of_mem_parts part
      exact plainSlots_eq_slots (blank.of_mem_parts part) e
termination_by sizeOf ty

/-- Plain descriptors are descriptors. -/
theorem mem_slots_of_mem_plainSlots {ty : DerivedType} {a s : Address} (mem : s ∈ ty.plainSlots a) :
    s ∈ ty.slots a := by
  cases itself : ty.initializesItself with
  | true =>
    rw [plainSlots_of_initializesItself itself] at mem
    cases mem
  | false =>
    rw [plainSlots_eq itself] at mem
    obtain ⟨p, part, mem⟩ := List.mem_flatMap.mp mem
    rw [slots_eq]
    refine List.mem_flatMap.mpr ⟨p, part, ?_⟩
    cases p with
    | slot _ => exact mem
    | element nested e =>
      have := sizeOf_of_mem_parts part
      have inside : s ∈ nested.plainSlots e := mem
      exact mem_slots_of_mem_plainSlots inside
termination_by sizeOf ty

/-- A type without a default value has no plain descriptors in its instances. -/
theorem plainSlots_of_not_initializable {ty : DerivedType} (h : ty.Summarized)
    (nothing : ty.isInitializable = false) (a : Address) : ty.plainSlots a = [] := by
  obtain ⟨plain, noZeros, noVisit⟩ := isInitializable_eq_false_iff.mp nothing
  rw [plainSlots_eq plain, List.flatMap_eq_nil_iff]
  intro p part
  cases p with
  | slot s =>
    have zeros := h.isZeroFilled_of_slot plain part
    simp [noZeros] at zeros
  | element nested e =>
    have := sizeOf_of_mem_parts part
    cases initializable : nested.isInitializable with
    | false => exact plainSlots_of_not_initializable (h.of_mem_parts part) initializable e
    | true =>
      have filled := h.filled_of_element plain part initializable
      simp [noVisit, noZeros] at filled
termination_by sizeOf ty

end DerivedType

/-- A plain descriptor is one of the descriptors of the part. -/
theorem Part.mem_slots_of_mem_plainSlots {p : Part} {s : Address} (mem : s ∈ p.plainSlots) :
    s ∈ p.slots := by
  cases p with
  | slot _ => exact mem
  | element nested e => exact DerivedType.mem_slots_of_mem_plainSlots mem

/-! ### Types -/

/-- The default value of a part changes nothing outside of it, and leaves zeros in the plain
    descriptors in it. A part that is a descriptor itself stays as it is. -/
def Part.Blanks (env : Environment) (p : Part) : Prop :=
  ∀ N : Machine, N.memory.Admits p.address p.size →
    ∃ N', forM (p.defaultSteps env.context) (DefaultStep.run env) N = .ok () N' ∧
      N.memory.ChangedInside N'.memory p.address p.size ∧
      ((∀ s, p = .slot s → N.memory.BlankAt s) → ∀ s ∈ p.plainSlots, N'.memory.BlankAt s)

namespace DerivedType

/-- The code of the initializer changes nothing outside the instance that it is called on. -/
def InitializesInside (env : Environment) (ty : DerivedType) : Prop :=
  ∀ p entry, ty.initializerEntry? env.context = some (p, entry) →
    ∀ a (m : Memory), m.Admits a ty.size.toNat →
      m.ChangedInside (env.code entry (.scalar a) m).2 a ty.size.toNat

variable {env : Environment} {ty : DerivedType} {a : Address} {M : Machine}

/-- What an outer fill leaves. -/
theorem exists_outerFill (env : Environment) (room : M.memory.Admits a ty.size.toNat) :
    ∃ M', forM (if ty.isZeroFilled then [DefaultStep.zeroFill ty a] else [])
        (DefaultStep.run env) M =
        .ok () M' ∧
      M.memory.ChangedInside M'.memory a ty.size.toNat ∧
      (ty.isZeroFilled → ∀ b : Address, b.InSpan a ty.size.toNat → M'.memory.byte? b = some 0) := by
  by_cases zeros : ty.isZeroFilled
  · obtain ⟨M', run, changed, blank⟩ := DefaultStep.exists_run_zeroFill env room
    rw [if_pos zeros, Run.forM_cons_of_ok run]
    exact ⟨M', rfl, changed, fun _ => blank⟩
  · rw [if_neg zeros]
    exact ⟨M, rfl, .refl .., fun filled => absurd filled zeros⟩

/-- A type that initializes itself changes nothing outside the instance. -/
theorem exists_defaultSteps_of_initializesItself (h : ty.Summarized) (itself : ty.initializesItself)
    (inside : ty.InitializesInside env) (room : M.memory.Admits a ty.size.toNat) :
    ∃ M', forM (ty.defaultSteps env.context a) (DefaultStep.run env) M = .ok () M' ∧
      M.memory.ChangedInside M'.memory a ty.size.toNat := by
  cases image : ty.image with
  | some bytes =>
    obtain ⟨M', run, changed⟩ := DefaultStep.exists_run_copyImage env bytes room
    rw [defaultSteps, image, Run.forM_cons_of_ok run]
    exact ⟨M', rfl, changed⟩
  | none =>
    cases code : ty.initializerEntry? env.context with
    | some initializer =>
      obtain ⟨p, entry⟩ := initializer
      obtain ⟨M', run, changed⟩ :=
        DefaultStep.exists_run_callInitializer p entry (inside p entry code a M.memory room)
      rw [defaultSteps, image, code, Run.forM_cons_of_ok run]
      exact ⟨M', rfl, changed⟩
    | none =>
      rw [h.defaultSteps_of_initializesItself itself image code]
      exact ⟨M, rfl, .refl ..⟩

/-- Where each part gets its default value, the plain descriptors of all of them are zeros in the
    end. -/
theorem exists_forM_parts (plain : ty.initializesItself = false) (laid : ty.Throughout LaidOut)
    (visit : ∀ p ∈ ty.parts a, p.Blanks env) (room : M.memory.Admits a ty.size.toNat)
    (zeros : ∀ s, .slot s ∈ ty.parts a → M.memory.BlankAt s) :
    ∃ M', forM ((ty.parts a).flatMap (·.defaultSteps env.context)) (DefaultStep.run env) M =
      .ok () M' ∧
      M.memory.ChangedInside M'.memory a ty.size.toNat ∧ ∀ s ∈ ty.plainSlots a,
      M'.memory.BlankAt s := by
  obtain ⟨M', run, changed, alone⟩ := Part.exists_forM_inside (M := M) (laid.own.pairwise_parts a)
    (fun _ => laid.own.exists_offset_of_mem_parts)
    (fun p part N fits => (visit p part N fits).imp fun _ visited => ⟨visited.1, visited.2.1⟩) room
  rw [Run.forM_flatMap]
  refine ⟨M', run, changed, fun s mem => ?_⟩
  rw [plainSlots_eq plain] at mem
  obtain ⟨p, part, mem⟩ := List.mem_flatMap.mp mem
  obtain ⟨N, N', here, fits, same⟩ := alone p part
  obtain ⟨N'', again, _, blanked⟩ := visit p part N fits
  cases here.symm.trans again
  -- A descriptor that is a part itself was there before, and it was all zeros.
  have ready : ∀ t, p = .slot t → N.memory.BlankAt t := by
    rintro t rfl b inside
    rw [(same b inside).1]
    exact zeros t part b inside
  obtain ⟨i, begins, le⟩ :=
    exists_offset_of_mem_part_slots laid part (Part.mem_slots_of_mem_plainSlots mem)
  intro b inside
  have inPart : b.InSpan p.address p.size := by
    rw [begins] at inside
    exact inside.of_sub le
  rw [(same b inPart).2]
  exact blanked ready s mem b inside

/-- Default initialization comes to an end, changes nothing outside the instance, and leaves zeros
    in all plain descriptors of the instance. -/
theorem exists_defaultSteps_blank {ty : DerivedType} {a : Address} {M : Machine} (h : ty.Summarized)
    (laid : ty.Throughout LaidOut) (inside : ty.Throughout (InitializesInside env))
    (room : M.memory.Admits a ty.size.toNat) :
    ∃ M', forM (ty.defaultSteps env.context a) (DefaultStep.run env) M = .ok () M' ∧
      M.memory.ChangedInside M'.memory a ty.size.toNat ∧ ∀ s ∈ ty.plainSlots a,
      M'.memory.BlankAt s := by
  cases itself : ty.initializesItself with
  | true =>
    obtain ⟨M', run, changed⟩ := exists_defaultSteps_of_initializesItself h itself inside.own room
    refine ⟨M', run, changed, fun s mem => ?_⟩
    rw [plainSlots_of_initializesItself itself] at mem
    cases mem
  | false =>
    have visit : ∀ p ∈ ty.parts a, p.Blanks env := by
      intro p part N fits
      cases p with
      | slot s =>
        exact ⟨N, rfl, .refl .., fun zeros t mem => zeros t (by rw [List.mem_singleton.mp mem])⟩
      | element nested e =>
        have := sizeOf_of_mem_parts part
        rw [Part.defaultSteps_element]
        obtain ⟨N', run, changed, blanked⟩ := exists_defaultSteps_blank (h.of_mem_parts part)
          (laid.of_mem_parts part) (inside.of_mem_parts part) fits
        exact ⟨N', run, changed, fun _ => blanked⟩
    obtain ⟨M₁, fill, changed, zeros⟩ := exists_outerFill env room
    rw [defaultSteps_eq_parts (noImage_of_initializesItself itself)
      (noEntry_of_initializesItself itself),
      List.forM_append, Run.bind_of_ok fill]
    by_cases enters : ty.isFilledByComponent
    · -- After the fill, one part after the other.
      have entered : (DefaultStep.enterComponents ty).run env M₁ =
          .ok () (M₁.recordAll (env.traceEvents (.init ty .components))) := Run.trace_apply ..
      obtain ⟨M₂, run, changed', blanked⟩ := exists_forM_parts
        (M := M₁.recordAll (env.traceEvents (.init ty .components))) itself laid visit
          (changed.admits room)
        fun s part b here => zeros (h.isZeroFilled_of_slot itself part) b
          (laid.own.inSpan_of_part part here)
      rw [if_pos enters, Run.forM_cons_of_ok entered]
      exact ⟨M₂, run, changed.trans changed', blanked⟩
    · -- No part is visited, so descriptors can only have asked for zeros.
      rw [if_neg enters]
      refine ⟨M₁, rfl, changed, fun s mem b here => ?_⟩
      obtain ⟨i, rfl, le⟩ := exists_offset_of_mem_slots laid (mem_slots_of_mem_plainSlots mem)
      refine zeros ?_ b (here.of_sub le)
      rw [plainSlots_eq itself] at mem
      obtain ⟨p, part, mem⟩ := List.mem_flatMap.mp mem
      cases p with
      | slot t => exact h.isZeroFilled_of_slot itself part
      | element nested e =>
        cases initializable : nested.isInitializable with
        | true => exact ((h.filled_of_element itself part initializable).resolve_left enters).2
        | false =>
          have none := plainSlots_of_not_initializable (h.of_mem_parts part) initializable e
          simp [Part.plainSlots, none] at mem
termination_by sizeOf ty

/-- After default initialization, whatever was in memory before, all bytes of the descriptors in the
    instance are zero. So teardowns without finalization, in any environment, release nothing, call
    nothing and leave memory as it is: all that is seen of them is their way through the components
    and parents. -/
theorem setDefault_then_destroy {M : Machine} (h : ty.Summarized)
    (sound : ty.Throughout TeardownSound) (blank : ty.Throughout SelfContained)
    (inside : ty.Throughout (InitializesInside env)) (room : M.memory.Admits a ty.size.toNat) :
    ∃ M', ty.setDefault env a M = .ok () M' ∧
      (∀ s ∈ ty.slots a, ∀ b : Address, b.InSpan s descriptorBytes → M'.memory.byte? b = some 0) ∧
      ∀ env' : Environment,
        (∃ way, ty.destroyScalar env' a false M' = .ok () (M'.recordAll way) ∧
          ∀ e ∈ way, e.isEntering) ∧
        ∃ way, ty.destroyComponents env' a false M' = .ok () (M'.recordAll way) ∧
        ∀ e ∈ way, e.isEntering := by
  have laid : ty.Throughout LaidOut := sound.imp fun _ sound => sound.laidOut
  obtain ⟨M', run, changed, blanked⟩ := exists_defaultSteps_blank h laid inside room
  rw [plainSlots_eq_slots blank] at blanked
  have idle : ∀ s ∈ ty.slots a, M'.memory.Vacant s := fun s mem =>
    (blanked s mem).vacant (spans_of_mem_slots laid (changed.admits room) mem)
  refine ⟨M', ?_, blanked, fun env' => ⟨?_, ?_⟩⟩
  · rw [setDefault_eq]
    exact run
  · exact exists_destroyScalar_false sound idle
  · exact exists_destroyComponents_false sound idle

end DerivedType

/-! ### A shelf -/

namespace Shelf

/-- Eight bytes with an initializer. -/
def label : DerivedType :=
  { number := 0, name := "label", parameters := [], components := [],
    procedures := [.initializer "init" ⟨some ⟨0⟩, none⟩], image := none, size := 8,
    isSequence := false,
    isBindC := false : DerivedType }.summarize

/-- A descriptor with a label. -/
def box : DerivedType :=
  { number := 1, name := "box", parameters := [],
    components := [.descriptor "content" .derived 0, .derived "label" (.row label 1 8) 456],
    procedures := [], image := none, size := 464, isSequence := false, isBindC := false :
    DerivedType }.summarize

/-- A box that holds two others. -/
def shelf : DerivedType :=
  { number := 2, name := "shelf", parameters := [],
    components := [.parent "box" (.row box 1 464), .derived "boxes" (.row box 2 464) 464],
    procedures := [],
    image := none, size := 1392, isSequence := false, isBindC := false : DerivedType }.summarize

/-- Where the initializer of a label stores a 7. -/
def environment : Environment :=
  .withoutHeap .host true fun _ argument m =>
    match argument with
    | .scalar a => (argument, m.write a [7])
    | .array _ => (argument, m)

/-- A buffer of the size of a shelf, full of garbage. -/
def machine : Machine := ⟨.ofBuffers default #[] [.replicate 1392 165], #[]⟩

/-- The types that lie in a box. -/
theorem eq_label {c : Component} {inner : DerivedType} (mem : c ∈ box.components)
    (named : c.derivedType? = some inner) : inner = label := by
  obtain rfl | rfl : c = .descriptor "content" .derived 0 ∨
      c = .derived "label" (.row label 1 8) 456 := by
    simpa [box] using mem
  · cases named
  · exact (Option.some.inj named).symm

/-- The types that lie directly in a shelf. -/
theorem eq_box {c : Component} {inner : DerivedType} (mem : c ∈ shelf.components)
    (named : c.derivedType? = some inner) : inner = box := by
  obtain rfl | rfl : c = .parent "box" (.row box 1 464) ∨
      c = .derived "boxes" (.row box 2 464) 464 := by
    simpa [shelf] using mem
  · exact (Option.some.inj named).symm
  · exact (Option.some.inj named).symm

/-- The example is built by `DerivedType.summarize`. -/
theorem summarized_shelf : shelf.Summarized := by
  refine DerivedType.summarized_summarize fun c mem inner named => ?_
  rw [eq_box mem named]
  refine DerivedType.summarized_summarize fun c mem inner named => ?_
  rw [eq_label mem named]
  exact DerivedType.summarized_summarize (by simp)

/-- What holds of the three types holds at all depths. -/
theorem throughout_shelf {P : DerivedType → Prop} (onShelf : P shelf) (onBox : P box)
    (onLabel : P label) :
    shelf.Throughout P := by
  refine .intro onShelf fun c mem shape inner embedded => ?_
  rw [eq_box mem (Component.derivedType?_of_embedded? embedded)]
  refine .intro onBox fun c mem shape inner embedded => ?_
  rw [eq_label mem (Component.derivedType?_of_embedded? embedded)]
  exact .of_plain onLabel (by decide)

/-- The three types satisfy what teardown relies on. -/
theorem teardownSound_shelf : shelf.Throughout DerivedType.TeardownSound := by
  refine throughout_shelf ⟨.of_ordered (by decide) (by decide) (by decide), by decide, ?_⟩
    ⟨.of_ordered (by decide) (by decide) (by decide), .of_plain (by decide)⟩
    ⟨.of_ordered (by decide) (by decide) (by decide), .of_plain (by decide)⟩
  intro c first _
  obtain rfl := Option.some.inj first
  exact ⟨rfl, _, box, rfl, by decide⟩

/-- A label holds no descriptor. -/
theorem slots_label (a : Address) : label.slots a = [] := by
  rw [DerivedType.slots_eq]
  rfl

/-- A box begins with its descriptor. -/
theorem slots_box (a : Address) : box.slots a = [a] := by
  rw [DerivedType.slots_eq]
  show [a + 0] ++ (label.slots _ ++ []) = _
  rw [slots_label, Address.add_zero]
  rfl

/-- A shelf has three boxes, each of which begins with a descriptor. -/
theorem slots_shelf (a : Address) : shelf.slots a = [a, a + 464, a + 928] := by
  rw [DerivedType.slots_eq]
  show box.slots _ ++ (box.slots _ ++ (box.slots _ ++ [])) = _
  simp only [slots_box]
  rfl

/-- None of the three types overwrites descriptors with an image. -/
theorem selfContained_shelf : shelf.Throughout DerivedType.SelfContained :=
  throughout_shelf (fun itself => absurd itself (by decide))
    (fun itself => absurd itself (by decide)) fun _ => slots_label

/-- The code of the example stores inside of what it initializes. -/
theorem initializesInside_shelf : shelf.Throughout (DerivedType.InitializesInside environment) :=
  throughout_shelf (fun _ _ _ _ _ room => .of_write room (by decide))
    (fun _ _ _ _ _ room => .of_write room (by decide))
    (fun _ _ _ _ _ room => .of_write room (by decide))

/-- There is room for a shelf. -/
theorem admits_shelf : machine.memory.Admits ⟨.buffer 0, 0⟩ shelf.size.toNat := by
  refine .inr (Memory.spans_iff.mpr ⟨(List.replicate 1392 165).toArray, rfl, ?_⟩)
  rw [List.size_toArray, List.length_replicate]
  decide

end Shelf

namespace DerivedType

/-- The three descriptors of a shelf, in memory full of garbage. -/
theorem setDefault_shelf_then_destroy : ∃ M',
    Shelf.shelf.setDefault Shelf.environment ⟨.buffer 0, 0⟩ Shelf.machine = .ok () M' ∧
    (∀ s ∈ [⟨.buffer 0, 0⟩, ⟨.buffer 0, 464⟩, ⟨.buffer 0, 928⟩], ∀ b : Address,
      b.InSpan s descriptorBytes →
      M'.memory.byte? b = some 0) ∧
    ∃ way, Shelf.shelf.destroyScalar Shelf.environment ⟨.buffer 0, 0⟩ false M' =
      .ok () (M'.recordAll way) ∧
      ∀ e ∈ way, e.isEntering := by
  obtain ⟨M', run, blanked, destroyed⟩ := setDefault_then_destroy Shelf.summarized_shelf
    Shelf.teardownSound_shelf Shelf.selfContained_shelf
      Shelf.initializesInside_shelf Shelf.admits_shelf
  rw [Shelf.slots_shelf] at blanked
  exact ⟨M', run, blanked, (destroyed Shelf.environment).1⟩

end DerivedType

end DerivedTypes
