import DerivedTypes.Proofs.DefaultValue.PlainRecursion
import DerivedTypes.Proofs.Locality.Acts
import DerivedTypes.Proofs.Locality.Zones

namespace DerivedTypes

/-!
# Procedures that keep to what they are given

A procedure is given an instance, or all elements of an array. It is confined to this zone if it
looks at nothing else in memory, and changes nothing but bytes in it that belong to no descriptor.

* `Environment.Confined`: a call is confined to a zone, and then to every larger one
  (`Confined.within`);
* `DerivedType.Confined`: the procedures of a type that operations call are confined to what they
  are given;
* `DerivedType.exists_acts_setDefault`: default initialization of an instance looks at nothing else
  either.
-/

/-- The code at an entry point, called with an argument, looks at one zone only, and changes nothing
    but bytes of the zone that belong to no descriptor. -/
def Environment.Confined (env : Environment) (entry : EntryPoint) (argument : Argument) (z : Zone) :
    Prop :=
  ∀ m : Memory, m.Admits z.address z.size →
    m.Changes z.writable (env.code entry argument m).2 ∧
    ∀ m', m.SameOn z.readable m' →
      (env.code entry argument m).2.SameOn z.readable (env.code entry argument m').2

namespace Environment.Confined

variable {env : Environment} {entry : EntryPoint} {argument : Argument} {z c : Zone}

/-- A call that is confined to a part is confined to the whole. -/
theorem within (h : env.Confined entry argument z) (inside : z.Within c) :
    env.Confined entry argument c := by
  intro m room
  have part := inside.admits room
  obtain ⟨changes, local'⟩ := h m part
  refine ⟨changes.mono inside.writable, fun m' same => ?_⟩
  -- What the whole has and the part has not is as it was.
  have same' := same.mono inside.readable
  have part' := same'.admits z.extent_mem_readable part
  exact same.after (local' m' same') changes (h m' part').1 z.writable_subset_readable

/-- A call of confined code acts on its zone. -/
theorem acts (h : env.Confined entry argument z) (p : Procedure) {m : Memory}
    (room : m.Admits z.address z.size) :
    Run.Acts z.readable z.writable m (do let _ ← Run.call env p entry argument)
      [.call p env.context argument] (env.code entry argument m).2 where
  changes := (h m room).1
  run := by
    intro M same
    have room' := same.admits z.extent_mem_readable room
    refine ⟨(env.code entry argument M.memory).2, ?_, (h M.memory room').1,
      (h m room).2 M.memory same⟩
    rw [Run.bind_of_ok (Run.call_apply ..), Machine.record_eq_recordAll]
    rfl

end Environment.Confined

/-- The initializer and the finalizers of a type are confined to the instance that they are given,
    and a finalizer of arrays to an array whose elements are instances of the type, or hold them. -/
structure DerivedType.Confined (env : Environment) (ty : DerivedType) : Prop where
  initializer : ∀ p entry, ty.initializerEntry? env.context = some (p, entry) →
    ∀ a, env.Confined entry (.scalar a) (ty.zone a)
  finalizer : ∀ p ∈ ty.procedures, p.isFinalizer → ∀ entry, p.code.entry? env.context = some entry →
    ∀ a, env.Confined entry (.scalar a) (ty.zone a)
  arrayFinalizer : ∀ p ∈ ty.procedures, p.isFinalizer → ∀ entry,
    p.code.entry? env.context = some entry →
    ∀ (d : Descriptor) (data : Address),
      (∀ e ∈ d.elementAddresses data, (ty.zone e).Within (d.zone data)) →
      env.Confined entry (.array { d with base := some data }) (d.zone data)

/-- A type without procedures calls nothing. -/
theorem DerivedType.Confined.of_no_procedures {ty : DerivedType} (none : ty.procedures = [])
    (env : Environment) :
    ty.Confined env where
  initializer := fun p entry there => by
    unfold initializerEntry? at there
    rw [initializer?, none] at there
    cases there
  finalizer := by simp [none]
  arrayFinalizer := by simp [none]

/-! ### Default values -/

namespace DefaultStep

/-- A step stores bytes in a zone only, and what it calls is confined to the zone. -/
def Confined (env : Environment) (z : Zone) : DefaultStep → Prop
  | copyImage ty _ a | zeroFill ty a => (ty.zone a).Within z
  | callInitializer _ _ entry a => env.Confined entry (.scalar a) z
  | enterComponents _ => True

variable {env : Environment} {z : Zone} {step : DefaultStep} {m : Memory}

/-- Bytes of an instance are stored. -/
theorem acts_writeBytes {ty : DerivedType} {a : Address} {bytes : List UInt8}
    (inside : (ty.zone a).Within z) (le : bytes.length ≤ ty.size.toNat)
    (room : m.Admits z.address z.size) :
    Run.Acts z.readable z.span m (Run.writeBytes a bytes) [] (m.write a bytes) := by
  have fits : m.Admits a bytes.length :=
    (inside.admits room).sub (i := 0) (by show 0 + _ ≤ ty.size.toNat; omega)
  have known : .extent a.region ∈ z.readable := inside.readable (ty.zone a).extent_mem_readable
  have part : Location.span a bytes.length ⊆ (ty.zone a).span :=
    Location.span_subset (i := 0) (by show 0 + _ ≤ ty.size.toNat; omega)
  have sub := part.trans inside.span
  exact (Run.Acts.writeBytes known fits).mono subset_rfl sub (sub.trans z.span_subset_readable)

/-- A step looks at the zone that it is confined to, and records its events. -/
theorem exists_acts (confined : step.Confined env z) (room : m.Admits z.address z.size) :
    ∃ m', Run.Acts z.readable z.span m (step.run env) (step.events env) m' := by
  cases step with
  | copyImage ty image a =>
    have le : (image.take ty.size.toNat).length ≤ ty.size.toNat := List.length_take_le ..
    have acts := (Run.Acts.trace z.readable z.span m env (.init ty .image)).bind
      (acts_writeBytes confined le room)
    rw [List.append_nil] at acts
    exact ⟨_, acts⟩
  | callInitializer ty p entry a =>
    have called :=
      (confined.acts p room).mono subset_rfl z.writable_subset_span z.writable_subset_readable
    exact ⟨_, (Run.Acts.trace _ _ m env (.init ty .procedure)).bind called⟩
  | zeroFill ty a =>
    have le : (List.replicate ty.size.toNat (0 : UInt8)).length ≤ ty.size.toNat := by simp
    have acts := (Run.Acts.trace z.readable z.span m env (.init ty .zeroFill)).bind
      (acts_writeBytes confined le room)
    rw [List.append_nil, ← Run.fillZero_eq_writeBytes] at acts
    exact ⟨_, acts⟩
  | enterComponents ty => exact ⟨m, .trace _ _ m env _⟩

end DefaultStep

namespace DerivedType

variable {env : Environment} {z : Zone}

/-- The steps that give an instance its default value keep to every zone that it is a part of. -/
theorem confined_defaultSteps {ty : DerivedType} {a : Address} (sound : ty.Throughout TeardownSound)
    (confined : ty.Throughout (Confined env)) (inside : (ty.zone a).Within z) :
    ∀ step ∈ ty.defaultSteps env.context a, step.Confined env z := by
  intro step mem
  -- The step belongs to an instance that is a part of this one, and so of the zone.
  obtain ⟨inner, b, ⟨_, confined, inside⟩, own⟩ := exists_own_of_mem_defaultSteps
    (P := fun inner b => inner.Throughout TeardownSound ∧ inner.Throughout (Confined env) ∧
      (inner.zone b).Within z)
    (fun _ _ _ _ ⟨sound, confined, inside⟩ part =>
      ⟨sound.of_mem_parts part, confined.of_mem_parts part,
        (zone_part_within sound part).trans inside⟩)
    ⟨sound, confined, inside⟩ step mem
  cases own with
  | copyImage image => exact inside
  | callInitializer code => exact (confined.own.initializer _ _ code b).within inside
  | zeroFill => exact inside
  | enterComponents => trivial

/-- Default initialization of an instance looks at the instance only, and changes nothing else. -/
theorem exists_acts_setDefault {ty : DerivedType} (sound : ty.Throughout TeardownSound)
    (confined : ty.Throughout (Confined env)) (a : Address) {m : Memory}
    (room : m.Admits a ty.size.toNat) :
    ∃ m', Run.Acts (ty.zone a).readable (ty.zone a).span m (ty.setDefault env a)
      ((ty.defaultSteps env.context a).flatMap (·.events env)) m' := by
  rw [setDefault_eq]
  -- No step takes away the bytes that the later ones store to.
  exact Run.Acts.exists_forM (I := fun m => m.Admits a ty.size.toNat)
    (fun _ _ room changes => changes.admits (ty.zone a).extent_not_mem_span room)
    (fun step mem _ room =>
      step.exists_acts (confined_defaultSteps sound confined (.refl _) step mem) room) room

end DerivedType

end DerivedTypes
