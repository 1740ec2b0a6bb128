import DerivedTypes.DerivedType.Text
import DerivedTypes.Descriptor.Text
import DerivedTypes.Proofs.Descriptor.LenSlots
import DerivedTypes.Proofs.Text.EscapeCodes

namespace DerivedTypes

/-!
# Colours of dumps

A dump consists of names, numbers and words. Numbers and words contain no escape character. So if
the names contain none either, the coloured dump differs from the plain one in nothing but the
codes.

* `DerivedType.NamesEscapeFree`, `Descriptor.NamesEscapeFree`: the names that a dump shows;
* `DerivedType.escapeFree_dumpLines`, `Descriptor.exists_escapeFree_dumpLines`: the lines of dumps
  contain no escape character;
* `DerivedType.erase_dump`, `Descriptor.exists_erase_dump`: without its codes, the coloured dump is
  the plain one.
-/

/-! ### Words -/

namespace StyledText

variable {s : Span} {text other : StyledText}

/-- An empty line. -/
@[simp] theorem escapeFree_nil : StyledText.EscapeFree [] := List.forall_mem_nil _

/-- A span and what follows it. -/
@[simp] theorem escapeFree_cons :
    StyledText.EscapeFree (s :: text) ↔ DerivedTypes.EscapeFree s.text ∧
    StyledText.EscapeFree text :=
  List.forall_mem_cons

/-- One text after the other. -/
@[simp] theorem escapeFree_append :
    StyledText.EscapeFree (text ++ other) ↔ StyledText.EscapeFree text ∧
    StyledText.EscapeFree other :=
  List.forall_mem_append

end StyledText

/-- A plain span shows its text. -/
@[simp] theorem Span.text_plain (text : String) : (Span.plain text).text = text := rfl

/-- So does the name of a type. -/
@[simp] theorem Span.text_typeName (text : String) : (Span.typeName text).text = text := rfl

/-- So does a note. -/
@[simp] theorem Span.text_note (text : String) : (Span.note text).text = text := rfl

/-- A value is shown as a number. -/
@[simp] theorem Span.escapeFree_value (i : Int) :
    EscapeFree (Span.value i).text := EscapeFree.repr_int i

/-- Categories are words. -/
theorem Category.escapeFree_name (category : Category) : EscapeFree category.name := by
  cases category <;> decide

/-- A type code is a word with a number. -/
@[simp] theorem TypeCode.escapeFree_text (t : TypeCode) : EscapeFree t.text := by
  have name := t.category.escapeFree_name
  unfold TypeCode.text
  split <;> simp +decide [name]

/-- Attributes are words. -/
@[simp] theorem Attribute.escapeFree_name (attr : Attribute) : EscapeFree attr.name := by
  cases attr <;> decide

/-- Flags are words. -/
theorem TypeFlag.escapeFree_word (flag : TypeFlag) : EscapeFree flag.word := by
  cases flag <;> decide

/-! ### Types -/

/-- A parameter is shown with its name. -/
theorem TypeParameter.escapeFree_dumpLine {p : TypeParameter} (name : EscapeFree p.name) :
    p.dumpLine.EscapeFree := by
  unfold TypeParameter.dumpLine
  split <;> simp +decide [name]

namespace Component

variable {c : Component}

/-- The notes on a component are words. -/
theorem escapeFree_notes (c : Component) : ∀ word ∈ c.notes, EscapeFree word := by
  simp only [notes, List.forall_mem_append]
  exact ⟨⟨.optional (by decide), .optional (by decide)⟩, .optional (by decide)⟩

/-- The type of a component is shown with its name. -/
theorem escapeFree_dumpType (named : ∀ inner, c.derivedType? = some inner → EscapeFree inner.name) :
    c.dumpType.EscapeFree := by
  unfold dumpType
  split
  · next inner there => simp +decide [named inner there]
  · simp

/-- The shape of a component is shown with numbers. -/
theorem escapeFree_dumpShape (c : Component) : c.dumpShape.EscapeFree := by
  unfold dumpShape
  split
  · simp
  · next shape _ =>
    split
    · simp
    · -- The extents are numbers.
      have extents : EscapeFree
          (",".intercalate (shape.dimensions.map fun dim => toString dim.extent.toInt)) :=
        .intercalate (by decide) (List.forall_mem_map.mpr fun dim _ => .repr_int _)
      simp_all +decide

/-- A component is shown with its name. -/
theorem escapeFree_dumpLine (name : EscapeFree c.name)
    (named : ∀ inner, c.derivedType? = some inner → EscapeFree inner.name) :
    c.dumpLine.EscapeFree := by
  have notes : EscapeFree (commaSeparated c.notes) := .commaSeparated c.escapeFree_notes
  unfold dumpLine
  split <;> simp_all +decide [escapeFree_dumpType named, escapeFree_dumpShape]

end Component

namespace Procedure

/-- The ranks of a finalizer are numbers. -/
theorem escapeFree_finalRole (p : Procedure) : ∀ word ∈ p.finalRole, EscapeFree word := by
  unfold finalRole
  split
  · simp +decide
  · split
    · simp
    · -- Ranks are numbers, too.
      have ranks :
          EscapeFree (",".intercalate (((List.range 32).filter p.isFinalForRank).map toString)) :=
        .intercalate (by decide) (List.forall_mem_map.mpr fun rank _ => .repr_nat rank)
      refine List.forall_mem_singleton.mpr ?_
      simp_all +decide

/-- The roles of a procedure are words. -/
theorem escapeFree_roleWords (p : Procedure) : ∀ word ∈ p.roleWords, EscapeFree word := by
  refine EscapeFree.unlessEmpty (by decide) ?_
  simp only [List.forall_mem_append]
  exact ⟨⟨⟨.optional (by decide), .optional (by decide)⟩, p.escapeFree_finalRole⟩,
    .optional (by decide)⟩

/-- A procedure is shown with its name. -/
theorem escapeFree_dumpLine {p : Procedure} (name : EscapeFree p.name) : p.dumpLine.EscapeFree := by
  simp +decide [dumpLine, name, EscapeFree.commaSeparated p.escapeFree_roleWords]

end Procedure

namespace DerivedType

/-- No name in the dump of a type contains an escape character: neither its own, nor those of its
    parts, nor those of the types that components name. -/
structure NamesEscapeFree (ty : DerivedType) : Prop where
  name : EscapeFree ty.name
  parameters : ∀ p ∈ ty.parameters, EscapeFree p.name
  components : ∀ c ∈ ty.components, EscapeFree c.name
  procedures : ∀ p ∈ ty.procedures, EscapeFree p.name
  named : ∀ c ∈ ty.components, ∀ inner, c.derivedType? = some inner → EscapeFree inner.name

variable {ty : DerivedType}

/-- The name of the extended type is one of those in the dump. -/
theorem NamesEscapeFree.base (names : ty.NamesEscapeFree) {base : DerivedType}
    (there : ty.base? = some base) :
    EscapeFree base.name := by
  obtain ⟨c, first, named⟩ := Option.bind_eq_some_iff.mp there
  exact names.named c (List.mem_of_mem_head? (Option.filter_eq_some_iff.mp first).1) base named

/-- No line in the dump of a type has an escape character that is in no name. -/
theorem escapeFree_dumpLines (names : ty.NamesEscapeFree) :
    ∀ line ∈ ty.dumpLines, line.EscapeFree := by
  have flags : EscapeFree (commaSeparated (ty.flags.map (·.word))) :=
    .commaSeparated (List.forall_mem_map.mpr fun flag _ => flag.escapeFree_word)
  unfold dumpLines
  -- The dump is put together of seven lists of lines.
  simp only [List.forall_mem_append, List.forall_mem_map]
  refine ⟨⟨⟨⟨⟨⟨?head, ?base⟩, ?flags⟩, ?image⟩, ?parameters⟩, ?components⟩, ?procedures⟩
  case head => simp +decide [names.name]
  case base =>
    split
    · simp
    · next base there => simp +decide [names.base there]
  case flags => split <;> simp_all +decide
  case image => split <;> simp +decide
  case parameters => exact fun p mem => TypeParameter.escapeFree_dumpLine (names.parameters p mem)
  case components => exact fun c mem =>
    Component.escapeFree_dumpLine (names.components c mem) (names.named c mem)
  case procedures => exact fun p mem => Procedure.escapeFree_dumpLine (names.procedures p mem)

/-- Without its codes, the coloured dump of a type is the plain one. -/
theorem erase_dump (names : ty.NamesEscapeFree) :
    Palette.colored.erase (ty.dump .colored) = ty.dump .plain :=
  Palette.erase_renderLines (escapeFree_dumpLines names)

end DerivedType

/-! ### Descriptors -/

/-- A dimension is shown with numbers. -/
theorem Dimension.escapeFree_dumpLine (dim : Dimension) (position : Nat) :
    (dim.dumpLine position).EscapeFree := by
  simp +decide [Dimension.dumpLine]

/-- A parameter is shown with its name and its value. -/
theorem TypeParameter.escapeFree_dumpLineIn {p : TypeParameter} {d : Descriptor} {line : StyledText}
    (name : EscapeFree p.name) (shown : p.dumpLineIn d = .ok line) : line.EscapeFree := by
  unfold TypeParameter.dumpLineIn at shown
  cases read : p.valueIn d with
  | error fault =>
    rw [read] at shown
    cases shown
  | ok value =>
    rw [read] at shown
    obtain rfl := Except.ok.inj shown
    by_cases kind : p.isKind <;> simp +decide [kind, name]

namespace Descriptor

/-- No name in the dump of a descriptor contains an escape character: neither that of its type nor
    those of the parameters. -/
structure NamesEscapeFree (d : Descriptor) : Prop where
  name : ∀ ty, d.derivedType? = some ty → EscapeFree ty.name
  parameters : ∀ ty, d.derivedType? = some ty → ∀ p ∈ ty.parameters, EscapeFree p.name

/-- The LEN parameters of the type have slots of the descriptor. -/
def HasLenSlots (d : Descriptor) : Prop :=
  ∀ ty, d.derivedType? = some ty → ∀ p ∈ ty.parameters, p.HasRoom

variable {d : Descriptor}

/-- So are several parameters. -/
theorem escapeFree_parameterLines {parameters : List TypeParameter} {lines : List StyledText}
    (each : List.Forall₂ (fun p line => p.dumpLineIn d = .ok line) parameters lines)
    (names : ∀ p ∈ parameters, EscapeFree p.name) : ∀ line ∈ lines, line.EscapeFree := by
  induction each with
  | nil => exact List.forall_mem_nil _
  | cons shown _ ih =>
    obtain ⟨name, others⟩ := List.forall_mem_cons.mp names
    exact List.forall_mem_cons.mpr ⟨TypeParameter.escapeFree_dumpLineIn name shown, ih others⟩

/-- The lines on the addendum are there, and contain no escape character. -/
theorem exists_escapeFree_dumpAddendum (names : d.NamesEscapeFree) (slots : d.HasLenSlots) :
    ∃ lines, d.dumpAddendum = .ok lines ∧ ∀ line ∈ lines, line.EscapeFree := by
  unfold dumpAddendum
  by_cases counts : d.hasAddendum
  · rw [if_neg (by simp [counts])]
    split
    · exact ⟨_, rfl, by simp +decide⟩
    · next ty there =>
      have named : d.derivedType? = some ty := by rw [derivedType?, if_pos counts, there]
      obtain ⟨lines, shown, each⟩ := exists_parameterLines (slots ty named) d
      rw [shown]
      exact ⟨_, rfl, List.forall_mem_cons.mpr ⟨by simp +decide [names.name ty named],
        escapeFree_parameterLines each (names.parameters ty named)⟩⟩
  · rw [if_pos (by simp [counts])]
    exact ⟨[], rfl, List.forall_mem_nil _⟩

/-- The lines of the dump are there, and contain no escape character. -/
theorem exists_escapeFree_dumpLines (names : d.NamesEscapeFree) (slots : d.HasLenSlots) :
    ∃ lines, d.dumpLines = .ok lines ∧ ∀ line ∈ lines, line.EscapeFree := by
  obtain ⟨addendum, shown, free⟩ := exists_escapeFree_dumpAddendum names slots
  unfold dumpLines
  rw [shown]
  refine ⟨_, rfl, ?_⟩
  simp only [List.forall_mem_append, List.forall_mem_map]
  refine ⟨⟨⟨?head, ?suppressed⟩, ?dims⟩, free⟩
  case head => split <;> simp +decide
  case suppressed => split <;> simp +decide
  case dims => exact fun dim _ => dim.1.escapeFree_dumpLine dim.2

/-- Without its codes, the coloured dump of a descriptor is the plain one. -/
theorem exists_erase_dump (names : d.NamesEscapeFree) (slots : d.HasLenSlots) :
    ∃ bright bare, d.dump .colored = .ok bright ∧ d.dump .plain = .ok bare ∧
    Palette.colored.erase bright = bare := by
  obtain ⟨lines, ended, free⟩ := exists_escapeFree_dumpLines names slots
  unfold dump
  rw [ended]
  exact ⟨_, _, rfl, rfl, Palette.erase_renderLines free⟩

end Descriptor

end DerivedTypes
