import DerivedTypes.Proofs.DefaultValue.BlankSlots

namespace DerivedTypes

/-!
# Default values out of the bytes of an instance

An initializer may make of its instance what it likes, as long as it looks at the bytes of the
instance only and changes no others. Then default initialization as a whole does no more than that:
what it makes of an instance depends on the bytes that it finds there, and neither on the address
nor on the rest of memory. This is told with two machines side by side.

* `Memory.Beside`: the same bytes lie at two addresses of two memories;
* `Run.Rewrites`: an operation that leaves the same bytes where it finds the same bytes, and changes
  no others. There is a lemma for each single step, and others for operations one after the other
  (`bind`, `forM`) and in a part (`part`);
* `DerivedType.rewrites_setDefault`: default initialization is such an operation;
* `Descriptor.exists_setDefaults_holdsDefault`: so all elements of storage that is all zeros get the
  same value.
-/

/-! ### Side by side -/

/-- There is room for `n` bytes at two addresses of two memories, and the bytes there are the
    same. -/
structure Memory.Beside (m : Memory) (a : Address) (m' : Memory) (b : Address) (n : Nat) :
    Prop where
  left : m.Admits a n
  right : m'.Admits b n
  same : ∀ j < n, m'.byte? (b + j) = m.byte? (a + j)

namespace Memory.Beside

variable {m m' p p' : Memory} {a b : Address} {n k i : Nat}

/-- Parts at the same place in both are the same, too. -/
theorem part (h : m.Beside a m' b n) (le : i + k ≤ n) : m.Beside (a + i) m' (b + i) k where
  left := h.left.sub le
  right := h.right.sub le
  same := fun j lt => by
    rw [Address.add_add, Address.add_add]
    exact h.same (i + j) (by omega)

/-- Changes inside the bytes take no room away. -/
theorem after (h : m.Beside a m' b n) (changed : m.ChangedInside p a n)
    (changed' : m'.ChangedInside p' b n) (same : ∀ j < n, p'.byte? (b + j) = p.byte? (a + j)) :
    p.Beside a p' b n :=
  ⟨changed.admits h.left, changed'.admits h.right, same⟩

/-- After changes in a part that leave it the same in both, the whole is the same in both. -/
theorem after_part (h : m.Beside a m' b n) (le : i + k ≤ n) (changed : m.ChangedInside p (a + i) k)
    (changed' : m'.ChangedInside p' (b + i) k) (part : p.Beside (a + i) p' (b + i) k) :
    p.Beside a p' b n := by
  refine h.after (changed.of_part le) (changed'.of_part le) fun j lt => ?_
  by_cases inside : i ≤ j ∧ j < i + k
  · have same := part.same (j - i) (by omega)
    rwa [Address.add_add, Address.add_add, Nat.add_sub_cancel' inside.1] at same
  · -- Next to the part, both are as they were.
    have outside (c : Address) : ¬ (c + j).InSpan (c + i) k := fun here => inside (by
      have := here.2
      simp only [Address.offset_add] at this
      omega)
    rw [changed.byte? _ (outside a), changed'.byte? _ (outside b), h.same j lt]

end Memory.Beside

namespace Run

/-- What an operation makes of the `n` bytes at an address depends on these bytes alone, and it
    changes no others. -/
def Rewrites (f : Address → Run Unit) (n : Nat) : Prop :=
  ∀ (a b : Address) (M N : Machine), M.memory.Beside a N.memory b n →
    ∃ M' N', f a M = .ok () M' ∧ f b N = .ok () N' ∧ M.memory.ChangedInside M'.memory a n ∧
      N.memory.ChangedInside N'.memory b n ∧ M'.memory.Beside a N'.memory b n

namespace Rewrites

variable {f g : Address → Run Unit} {n k i : Nat}

/-! ### Operations one after the other -/

/-- Doing nothing changes nothing, wherever the instance is. -/
theorem pure (n : Nat) : Rewrites (fun _ => Pure.pure ()) n :=
  fun _ _ M N beside => ⟨M, N, rfl, rfl, .refl .., .refl .., beside⟩

/-- Two operations one after the other. -/
theorem bind (h : Rewrites f n) (h' : Rewrites g n) : Rewrites (fun a => do f a; g a) n := by
  intro a b M N beside
  obtain ⟨M₁, N₁, ran, ran', changed, changed', beside⟩ := h a b M N beside
  obtain ⟨M₂, N₂, then', then'', changed₂, changed₂', beside⟩ := h' a b M₁ N₁ beside
  exact ⟨M₂, N₂, (bind_of_ok ran).trans then', (bind_of_ok ran').trans then'',
    changed.trans changed₂,
    changed'.trans changed₂', beside⟩

/-- An operation for each item. -/
theorem forM {α : Type} {items : List α} {f : α → Address → Run Unit}
    (each : ∀ x ∈ items, Rewrites (f x) n) :
    Rewrites (fun a => ForM.forM items fun x => f x a) n := by
  induction items with
  | nil => exact pure n
  | cons x rest ih =>
    simp only [List.forM_cons]
    exact (each x List.mem_cons_self).bind (ih fun y mem => each y (List.mem_cons_of_mem _ mem))

/-- An operation on a part is one on the whole. -/
theorem part (h : Rewrites f k) (le : i + k ≤ n) : Rewrites (fun a => f (a + i)) n := by
  intro a b M N beside
  obtain ⟨M', N', ran, ran', changed, changed', beside'⟩ := h (a + i) (b + i) M N (beside.part le)
  exact ⟨M', N', ran, ran', changed.of_part le, changed'.of_part le,
    beside.after_part le changed changed' beside'⟩

/-! ### Single operations -/

/-- Traces do not touch memory. -/
theorem trace (n : Nat) (env : Environment) (step : Trace) :
    Rewrites (fun _ => Run.trace env step) n :=
  fun _ _ _ _ beside => ⟨_, _, trace_apply .., trace_apply .., .refl .., .refl .., beside⟩

/-- A store of bytes that an instance has room for. -/
theorem writeBytes {bytes : List UInt8} (le : bytes.length ≤ n) :
    Rewrites (fun a => Run.writeBytes a bytes) n := by
  intro a b M N beside
  have fits : M.memory.Admits a bytes.length := beside.left.sub (i := 0) (by omega)
  have fits' : N.memory.Admits b bytes.length := beside.right.sub (i := 0) (by omega)
  have changed : M.memory.ChangedInside (M.memory.write a bytes) a n := .of_write beside.left le
  have changed' : N.memory.ChangedInside (N.memory.write b bytes) b n := .of_write beside.right le
  refine ⟨_, _, writeBytes_of_fits fits, writeBytes_of_fits fits', changed, changed',
    beside.after changed changed' fun j lt => ?_⟩
  rw [Machine.memory_withMemory, Machine.memory_withMemory,
    Memory.byte?_write_of_admits (s := ⟨a, bytes⟩) fits,
    Memory.byte?_write_of_admits (s := ⟨b, bytes⟩) fits', Store.byte?_add,
    Store.byte?_add, beside.same j lt]

/-- A call of code that changes the instance only, and looks at nothing else. -/
theorem call {env : Environment} {p : Procedure} {entry : EntryPoint}
    (inside : ∀ a (m : Memory), m.Admits a n → m.ChangedInside (env.code entry (.scalar a) m).2 a n)
    (same : ∀ (a b : Address) (m m' : Memory), m.Beside a m' b n →
      (env.code entry (.scalar a) m).2.Beside a (env.code entry (.scalar b) m').2 b n) :
    Rewrites (fun a => do let _ ← Run.call env p entry (.scalar a)) n :=
  fun _ _ _ _ beside =>
    ⟨_, _, bind_of_ok (call_apply ..), bind_of_ok (call_apply ..), inside _ _ beside.left,
    inside _ _ beside.right, same _ _ _ _ beside⟩

end Rewrites

end Run

open Run (Rewrites)

/-! ### Default initialization -/

/-- What the code of the initializer makes of an instance depends on the bytes of the instance
    alone, and it changes no others. -/
structure DerivedType.InitializesByBytes (env : Environment) (ty : DerivedType) : Prop where
  inside : ty.InitializesInside env
  same : ∀ p entry, ty.initializerEntry? env.context = some (p, entry) →
    ∀ (a b : Address) (m m' : Memory), m.Beside a m' b ty.size.toNat →
      (env.code entry (.scalar a) m).2.Beside a (env.code entry (.scalar b) m').2 b ty.size.toNat

namespace Descriptor

variable {env : Environment} {d : Descriptor} {ty : DerivedType}

/-- If the default value of an element comes out of its bytes, then those of all elements come out
    of theirs. -/
theorem rewrites_setDefaults (named : d.derivedType? = some ty) (size : d.elementSize = ty.size)
    (element : Rewrites (ty.setDefault env) ty.size.toNat) :
    Rewrites (d.setDefaults env) (d.elementCount * d.elementSize.toNat) := by
  have elements : d.setDefaults env =
      fun data => forM (List.range d.elementCount) fun j =>
        ty.setDefault env (data + j * d.elementSize.toNat) := by
    funext data
    rw [setDefaults_eq_forM env named, elementAddresses, List.forM_map]
  rw [elements]
  refine .forM fun j mem => element.part ?_
  rw [← size]
  exact element_le (List.mem_range.mp mem)

end Descriptor

namespace DerivedType

variable {env : Environment}

/-- If the default values of embedded elements come out of their bytes, then the default value of a
    component comes out of the bytes of the instance. -/
theorem LaidOut.rewrites_component {ty : DerivedType} (laid : ty.LaidOut) {c : Component}
    (mem : c ∈ ty.components)
    (element : ∀ shape nested, c.embedded? = some (shape, nested) →
      Rewrites (nested.setDefault env) nested.size.toNat) :
    Rewrites (fun a => forM (c.defaultSteps env.context a) (DefaultStep.run env))
      ty.size.toNat := by
  obtain slot | ⟨shape, nested, embedded⟩ | ⟨plain, none⟩ := c.parts_cases
  · simp only [Component.defaultSteps_eq_parts, Component.parts_of_isDescriptor slot]
    exact .pure _
  · obtain ⟨plain, static, named⟩ := Component.embedded?_eq_some_iff.mp embedded
    have inside := laid.inside c mem
    rw [Component.extent_of_embedded embedded] at inside
    simp only [Component.defaultSteps, plain, static, Bool.false_eq_true, if_false,
      ← List.forM_eq_forM, ← Descriptor.setDefaults_eq]
    exact (shape.rewrites_setDefaults named (laid.elementSize_eq c mem shape nested embedded)
      (element shape nested embedded)).part inside
  · simp only [Component.defaultSteps_eq_parts, Component.parts_of_plain plain none]
    exact .pure _

/-- Without an image and an initializer, default initialization has three stages, and each of them
    may have nothing to do: the outer fill, the entry, and one component after the other. -/
theorem setDefault_eq_stages {ty : DerivedType} (noImage : ty.image = none)
    (noEntry : ty.initializerEntry? env.context = none) (a : Address) :
    ty.setDefault env a = (do
      forM (if ty.isZeroFilled then [()] else []) fun _ => (DefaultStep.zeroFill ty a).run env
      forM (if ty.isFilledByComponent then [()] else []) fun _ =>
        (DefaultStep.enterComponents ty).run env
      forM (if ty.isFilledByComponent then ty.components else []) fun c =>
        forM (c.defaultSteps env.context a) (DefaultStep.run env)) := by
  rw [setDefault_eq, defaultSteps_eq a noImage noEntry, List.forM_eq_forM, List.forM_append]
  congr 1
  · split <;> rfl
  · funext _
    split
    · rw [List.forM_cons, List.forM_cons, List.forM_nil, bind_pure_unit, Run.forM_flatMap]
    · rfl

/-- What default initialization makes of an instance depends on the bytes of the instance alone, and
    it changes no others. -/
theorem rewrites_setDefault {ty : DerivedType} (laid : ty.Throughout LaidOut)
    (code : ty.Throughout (InitializesByBytes env)) :
    Rewrites (ty.setDefault env) ty.size.toNat := by
  cases image : ty.image with
  | some bytes =>
    have copied : ty.setDefault env = fun a => (DefaultStep.copyImage ty bytes a).run env := by
      funext a
      rw [setDefault, forDefaultSteps, image]
    rw [copied]
    exact .bind (.trace _ _ _) (.writeBytes (List.length_take_le ..))
  | none =>
    cases entry : ty.initializerEntry? env.context with
    | some initializer =>
      obtain ⟨p, entryPoint⟩ := initializer
      have called : ty.setDefault env = fun a =>
          (DefaultStep.callInitializer ty p entryPoint a).run env := by
        funext a
        rw [setDefault, forDefaultSteps, image, entry]
      rw [called]
      exact .bind (.trace _ _ _)
        (.call (code.own.inside p entryPoint entry) (code.own.same p entryPoint entry))
    | none =>
      rw [funext (setDefault_eq_stages image entry)]
      refine .bind (.forM fun _ _ => ?_)
        (.bind (.forM fun _ _ => .trace _ _ _) (.forM fun c mem => ?_))
      · simp only [DefaultStep.run, Run.fillZero_eq_writeBytes]
        exact .bind (.trace _ _ _) (.writeBytes (by rw [List.length_replicate]))
      · have there : c ∈ ty.components := by
          split at mem
          · exact mem
          · cases mem
        refine laid.own.rewrites_component there fun shape nested embedded => ?_
        have := sizeOf_embedded there embedded
        exact rewrites_setDefault (laid.of_embedded there embedded)
          (code.of_embedded there embedded)
termination_by sizeOf ty

end DerivedType

/-! ### Storage that is all zeros -/

/-- The bytes from an address on are those that default initialization makes of an instance of
    zeros, wherever that lies. -/
def Memory.HoldsDefault (m : Memory) (env : Environment) (ty : DerivedType) (e : Address) : Prop :=
  ∀ (Z : Machine) (b : Address), Z.memory.Admits b ty.size.toNat →
    (∀ x : Address, x.InSpan b ty.size.toNat → Z.memory.byte? x = some 0) →
    ∃ Z', ty.setDefault env b Z = .ok () Z' ∧ Z'.memory.Beside b m e ty.size.toNat

/-- An instance of zeros that got its default value in some run holds it, and so does every instance
    of the same bytes. -/
theorem Memory.HoldsDefault.of_run {env : Environment} {ty : DerivedType} {e : Address} {m : Memory}
    {N N' : Machine} (rewrites : Rewrites (ty.setDefault env) ty.size.toNat)
    (ran : ty.setDefault env e N = .ok () N') (fits : N.memory.Admits e ty.size.toNat)
    (zeros : ∀ j < ty.size.toNat, N.memory.byte? (e + j) = some 0) (room : m.Admits e ty.size.toNat)
    (kept : ∀ j < ty.size.toNat, m.byte? (e + j) = N'.memory.byte? (e + j)) :
    m.HoldsDefault env ty e := by
  intro Z b admits blank
  have beside : Z.memory.Beside b N.memory e ty.size.toNat :=
    ⟨admits, fits, fun j lt => (zeros j lt).trans (blank _ (Address.inSpan_add lt)).symm⟩
  obtain ⟨Z', N'', ran', again, _, _, after⟩ := rewrites b e Z N beside
  cases ran.symm.trans again
  exact ⟨Z', ran', after.left, room, fun j lt => (kept j lt).trans (after.same j lt)⟩

namespace Descriptor

variable {env : Environment} {d : Descriptor} {ty : DerivedType} {data : Address}

/-- The elements of storage that is all zeros get their default values without a fault. Each of them
    gets the value that an instance of zeros gets anywhere else, and nothing outside the storage
    changes. -/
theorem exists_setDefaults_holdsDefault (named : d.derivedType? = some ty)
    (size : d.elementSize = ty.size) (laid : ty.Throughout DerivedType.LaidOut)
    (code : ty.Throughout (DerivedType.InitializesByBytes env)) {M : Machine}
    (room : M.memory.Admits data (d.elementCount * d.elementSize.toNat))
    (zeros : ∀ x : Address, x.InSpan data (d.elementCount * d.elementSize.toNat) →
      M.memory.byte? x = some 0) :
    ∃ M', d.setDefaults env data M = .ok () M' ∧
      M.memory.ChangedInside M'.memory data (d.elementCount * d.elementSize.toNat) ∧
      ∀ e ∈ d.elementAddresses data, M'.memory.HoldsDefault env ty e := by
  have rewrites := DerivedType.rewrites_setDefault laid code
  have within : ∀ e ∈ d.elementAddresses data, ∃ i, e = data + i ∧
      i + ty.size.toNat ≤ d.elementCount * d.elementSize.toNat := by
    rw [← size]
    exact fun _ => exists_offset_of_mem_elementAddresses
  obtain ⟨M', run, changed, alone⟩ :=
    Part.exists_forM_inside (f := fun p => ty.setDefault env p.address)
    (d.pairwise_elements size data) (List.forall_mem_map.mpr within)
    (List.forall_mem_map.mpr fun e _ N fits => by
      obtain ⟨N', _, ran, _, changed, _⟩ := rewrites e e N N ⟨fits, fits, fun _ _ => rfl⟩
      exact ⟨N', ran, changed⟩)
    room
  rw [List.forM_map] at run
  refine ⟨M', (congrFun (setDefaults_eq_forM env named data) M).trans run, changed, fun e mem => ?_⟩
  obtain ⟨N, N', ran, fits, same⟩ := alone (.element ty e) (List.mem_map_of_mem mem)
  obtain ⟨i, rfl, le⟩ := within e mem
  -- The element was all zeros when its turn came.
  refine .of_run rewrites ran fits (fun j lt => ?_) (changed.admits (room.sub le))
    fun j lt => (same _ (Address.inSpan_add lt)).2
  exact (same _ (Address.inSpan_add lt)).1.trans (zeros _ ((Address.inSpan_add lt).of_sub le))

end Descriptor

end DerivedTypes
