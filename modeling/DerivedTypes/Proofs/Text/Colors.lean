import DerivedTypes.Proofs.Session.Provenance
import DerivedTypes.Proofs.Text.Dumps
import DerivedTypes.Recording

namespace DerivedTypes

/-!
# Colours add nothing but escape codes

What is dumped or traced looks the same with colours and without, but for the escape codes, as long
as no name contains an escape character. For dumps it is enough to look at the names that are shown.
The lines of a trace may show any type that a program comes across, so there the names inside of
types count, too, at any depth.

* `DerivedType.EscapeFreeInside`: no name in a type, or in a type inside of it, contains an escape
  character;
* `Trace.escapeFree_line`: then no line that shows the type does;
* `Palette.colored_adds_only_codes`: dumps of types and descriptors, and traces of programs, line by
  line.
-/

/-- No name in a type, or in a type that its components name, at any depth, contains an escape
    character. -/
inductive DerivedType.EscapeFreeInside : DerivedType → Prop
  | intro {ty : DerivedType} (names : ty.NamesEscapeFree)
      (inside : ∀ c ∈ ty.components, ∀ inner, c.derivedType? = some inner →
        EscapeFreeInside inner) :
      EscapeFreeInside ty

namespace DerivedType.EscapeFreeInside

variable {ty : DerivedType}

/-- The names in the dump of the type are free of escape characters. -/
theorem names (h : ty.EscapeFreeInside) : ty.NamesEscapeFree := by
  cases h
  assumption

/-- The names inside of components are enough for those that the components name. -/
theorem of_inside (name : EscapeFree ty.name) (parameters : ∀ p ∈ ty.parameters, EscapeFree p.name)
    (components : ∀ c ∈ ty.components, EscapeFree c.name)
    (procedures : ∀ p ∈ ty.procedures, EscapeFree p.name)
    (inside : ∀ c ∈ ty.components, ∀ inner, c.derivedType? = some inner → inner.EscapeFreeInside) :
    ty.EscapeFreeInside :=
  .intro ⟨name, parameters, components, procedures, fun c mem inner named =>
    (inside c mem inner named).names.name⟩
    inside

/-- The property is handed on to all types that components name. -/
theorem handedOn : HandedOn EscapeFreeInside := by
  intro ty c inner h mem named
  cases h with
  | intro _ inside => exact inside c mem inner named

end DerivedType.EscapeFreeInside

/-! ### Traces -/

/-- The label of a rule is a word. -/
theorem DefaultRule.escapeFree_label (rule : DefaultRule) : EscapeFree rule.label := by
  cases rule <;> decide

/-- A line that shows names without escape characters contains none. -/
theorem Trace.escapeFree_line {step : Trace} (among : step.Among DerivedType.EscapeFreeInside) :
    step.line.EscapeFree := by
  cases step with
  | init ty rule =>
    have type : ty.EscapeFreeInside := among
    simp +decide [line, type.names.name, rule.escapeFree_label]
  | finalize ty p => simp +decide [line, among.1.names.name, among.1.names.procedures p among.2]
  | destroyComponents ty =>
    have type : ty.EscapeFreeInside := among
    simp +decide [line, type.names.name]
  | release ty c => simp +decide [line, among.1.names.name, among.1.names.components c among.2]
  | enterParent ty parent => simp +decide [line, among.1.names.name, among.2.names.name]

namespace Machine

/-- The steps that were traced. -/
def traces (M : Machine) : List Trace :=
  M.events.toList.filterMap fun
    | .trace step => some step
    | _ => none

/-- The lines in which a tracer prints what was traced. -/
def traceLines (M : Machine) (p : Palette) : List String :=
  M.traces.map (·.line.render p)

/-- What was traced is among the events. -/
theorem mem_traces {M : Machine} {step : Trace} (mem : step ∈ M.traces) :
    .trace step ∈ M.events := by
  obtain ⟨event, there, same⟩ := List.mem_filterMap.mp mem
  split at same
  · cases same
    exact Array.mem_toList_iff.mp there
  · cases same

/-- Without their codes, the coloured lines are the plain ones. -/
theorem Among.erase_traceLines {M : Machine} (among : M.Among DerivedType.EscapeFreeInside) :
    (M.traceLines .colored).map Palette.colored.erase = M.traceLines .plain := by
  unfold traceLines
  rw [List.map_map]
  exact List.map_congr_left fun step mem =>
    Palette.erase_render (Trace.escapeFree_line (among.traces step (mem_traces mem)))

end Machine

/-! ### Dumps and traces -/

/-- Colours add nothing but escape codes. Without the codes, the coloured dump of a type is the
    plain one, and so is that of a descriptor; and the coloured lines of all that a program traces,
    however it ends, are the plain ones, one by one. -/
theorem Palette.colored_adds_only_codes :
    (∀ ty : DerivedType, ty.NamesEscapeFree → colored.erase (ty.dump colored) = ty.dump plain) ∧
    (∀ d : Descriptor, d.NamesEscapeFree → d.HasLenSlots →
      ∃ bright bare, d.dump colored = .ok bright ∧ d.dump plain = .ok bare ∧
      colored.erase bright = bare) ∧
    ∀ (env : Environment) (s : Session) (commands : List Command),
      env.KeepsAmong DerivedType.EscapeFreeInside →
      s.Among DerivedType.EscapeFreeInside →
      (∀ command ∈ commands, ∀ ty ∈ command.types, ty.EscapeFreeInside) →
      (((Command.runAll env commands).leaves s).machine.traceLines colored).map colored.erase =
        ((Command.runAll env commands).leaves s).machine.traceLines plain :=
  ⟨fun _ => DerivedType.erase_dump, fun _ =>
    Descriptor.exists_erase_dump, fun _ _ _ kept among named =>
      (among.runAll DerivedType.EscapeFreeInside.handedOn kept named).machine.erase_traceLines⟩

/-! ### Circles -/

namespace Drawing

/-- A shape is rubbed out at the end. -/
def shape : DerivedType :=
  { number := 0, name := "shape", parameters := [], components := [.intrinsic "x" ⟨.integer, 4⟩ 0],
    procedures := [.elementalFinal "rub_out" { host := some ⟨0⟩ }], image := none, size := 4,
    isSequence := false,
    isBindC := false : DerivedType }.summarize

/-- A circle is a shape. -/
def circle : DerivedType :=
  { number := 1, name := "circle", parameters := [.len "n" ⟨.integer, 4⟩ 3 0],
    components := [.parent "shape" (.row shape 1 4)], procedures := [], image := none, size := 4,
    isSequence := false,
    isBindC := false : DerivedType }.summarize

/-- No name in a shape has an escape character. -/
theorem escapeFreeInside_shape : shape.EscapeFreeInside :=
  .of_inside (by decide) (by decide) (by decide) (by decide) (List.forall_mem_singleton.mpr nofun)

/-- So it is with circles. -/
theorem escapeFreeInside_circle : circle.EscapeFreeInside := by
  refine .of_inside (by decide) (by decide) (by decide) (by decide)
    (List.forall_mem_singleton.mpr fun inner named => ?_)
  have inherited : (Component.parent "shape" (.row shape 1 4)).derivedType? = some shape :=
    Descriptor.derivedType?_row shape 1 4
  obtain rfl := Option.some.inj (inherited.symm.trans named)
  exact escapeFreeInside_shape

/-- One circle, with five for its parameter. -/
def one : Descriptor := { Descriptor.row circle 1 4 with lenValues := #v[5, 0, 0, 0, 0, 0, 0, 0] }

/-- The one element is a circle. -/
theorem eq_circle_of_derivedType? {ty : DerivedType} (named : one.derivedType? = some ty) :
    ty = circle :=
  (Option.some.inj ((Descriptor.derivedType?_row circle 1 4).symm.trans named)).symm

/-- The names in the dump of the circle are free of escape characters. -/
theorem namesEscapeFree_one : one.NamesEscapeFree where
  name := fun _ named => eq_circle_of_derivedType? named ▸ escapeFreeInside_circle.names.name
  parameters :=
    fun _ named => eq_circle_of_derivedType? named ▸ escapeFreeInside_circle.names.parameters

/-- There is a slot for the parameter of the circle. -/
theorem hasLenSlots_one : one.HasLenSlots := by
  intro ty named
  obtain rfl := eq_circle_of_derivedType? named
  exact List.forall_mem_singleton.mpr fun slot given => by cases given; decide

/-- A context in which steps are traced. -/
def environment : Environment := .ofRecordings .host true #[] 0

/-- The storage of a circle. -/
def storage : Session := .start default #[shape, circle] [[1, 2, 3, 4]] 0

/-- The teardown of a circle, step by step. -/
theorem scalarSteps_circle (a : Address) : circle.scalarSteps .host a true =
    [.enterComponents circle, .enterParent circle shape,
      .finalizeScalar shape (.elementalFinal "rub_out" { host := some ⟨0⟩ }) ⟨0⟩ a,
      .enterComponents shape] := by
  have extended : circle.isExtension = true := rfl
  have named : circle.parent = .ok shape := rfl
  have plain : shape.isExtension = false := rfl
  rw [DerivedType.scalarSteps_of_parent extended named,
    DerivedType.scalarSteps_of_not_extension plain,
    DerivedType.componentSteps_eq, DerivedType.componentSteps_eq]
  rfl

/-- The trace of the teardown of a circle. -/
theorem traceLines_circle :
    ((Command.runAll environment [.destroyScalar circle ⟨.buffer 0, 0⟩ true]).leaves
      storage).machine.traceLines .plain =
      ["destroy circle", "parent circle -> shape", "final shape: rub_out", "destroy shape"] := by
  have run : circle.destroyScalar environment ⟨.buffer 0, 0⟩ true = _ :=
    DerivedType.destroyScalar_eq ..
  rw [show environment.context = .host from rfl, scalarSteps_circle] at run
  simp only [Command.runAll, Command.run, List.forM_eq_forM, List.forM_cons, List.forM_nil, run]
  rfl

end Drawing

open Drawing in
/-- Dumps of a circle, and the trace of its teardown, whose lines have up to four codes each. -/
theorem Palette.erased_circle :
    colored.erase (circle.dump colored) =
      "type circle (4 bytes)\n  extends shape\n  len n = 3 (slot 0)\n" ++
        "  component shape: TYPE(shape), dimension(1) @ 0 [parent]\n" ∧
    (∃ bright bare, one.dump colored = .ok bright ∧ one.dump plain = .ok bare ∧
      colored.erase bright = bare) ∧
    (((Command.runAll environment [.destroyScalar circle ⟨.buffer 0, 0⟩ true]).leaves
      storage).machine.traceLines
        colored).map colored.erase =
      ["destroy circle", "parent circle -> shape", "final shape: rub_out", "destroy shape"] := by
  obtain ⟨types, descriptors, traces⟩ := colored_adds_only_codes
  refine ⟨(types circle escapeFreeInside_circle.names).trans (by decide +kernel),
    descriptors one namesEscapeFree_one hasLenSlots_one, ?_⟩
  have among : storage.Among DerivedType.EscapeFreeInside :=
    Session.among_start (by simp [escapeFreeInside_shape, escapeFreeInside_circle]) _ _ _
  have named : ∀ command ∈ [Command.destroyScalar circle ⟨.buffer 0, 0⟩ true], ∀ ty ∈ command.types,
      ty.EscapeFreeInside := by simp [Command.types, escapeFreeInside_circle]
  exact (traces environment storage _ (Environment.keepsAmong_ofRecordings _ _ _ _) among
    named).trans traceLines_circle

end DerivedTypes
