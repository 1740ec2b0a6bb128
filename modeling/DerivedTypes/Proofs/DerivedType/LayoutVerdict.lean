import DerivedTypes.DerivedType.Layout

namespace DerivedTypes

/-!
# The verdict on a layout

`DerivedType.checkLayout` tries rules one after the other: first the rule for the image, then those
for each parameter, then the rule for the number of initializers, then those for each component in
table order. `DerivedType.layoutRules` lists them in this order. A rule is a condition on the table,
told without the check, and the violation that is reported where the condition does not hold.

* `LayoutRule.Verdict`: what comes out of rules that are tried in order. It is put together part by
  part (`Verdict.append`, `Verdict.flatMap`) and says which rule was broken first
  (`Verdict.eq_some_iff`);
* `DerivedType.verdict`: the check comes to the verdict on the rules of the table;
* `DerivedType.KeepsLayout`: what is asked of a table, and
  `DerivedType.checkLayout_eq_ok_iff_keepsLayout`;
* `Violation.TrueOf`: what a violation says about a table;
* `DerivedType.checkLayout_verdict`: acceptance, truth of what is reported, and the order of
  reports.
-/

/-! ### Rules in order -/

/-- The violation that is reported if a table breaks a rule. -/
structure LayoutRule where
  violation : Violation
  broken : Prop

namespace LayoutRule

/-- The first rule that is broken is reported, if there is one. -/
inductive Verdict : List LayoutRule → Option Violation → Prop
  | nil : Verdict [] none
  | broken {rule : LayoutRule} {rest : List LayoutRule} (broken : rule.broken) :
      Verdict (rule :: rest) (some rule.violation)
  | kept {rule : LayoutRule} {rest : List LayoutRule} {found : Option Violation}
      (kept : ¬ rule.broken)
      (others : Verdict rest found) : Verdict (rule :: rest) found

namespace Verdict

variable {rule : LayoutRule} {rules others : List LayoutRule} {found found' : Option Violation}

/-- A rule that is decided by a test comes before the others. -/
theorem ite {test : Bool} (decides : test = true ↔ rule.broken) (h : Verdict others found) :
    Verdict (rule :: others) (if test then some rule.violation else found) := by
  cases test with
  | true => exact .broken (decides.mp rfl)
  | false => exact .kept (fun broken => Bool.false_ne_true (decides.mpr broken)) h

/-- Some rules come before others. -/
theorem append (h : Verdict rules found) (h' : Verdict others found') :
    Verdict (rules ++ others) (found.or found') := by
  induction h with
  | nil => exact h'
  | broken broken => exact .broken broken
  | kept kept _ ih => exact .kept kept ih

/-- The rules of each item come before those of the items after it. -/
theorem flatMap {α : Type} {items : List α} {rules : α → List LayoutRule}
    {report : α → Option Violation} (each : ∀ item ∈ items, Verdict (rules item) (report item)) :
    Verdict (items.flatMap rules) (items.findSome? report) := by
  induction items with
  | nil => exact .nil
  | cons item rest ih =>
    have first := each item List.mem_cons_self
    have others := ih fun item mem => each item (List.mem_cons_of_mem _ mem)
    have both := first.append others
    rw [List.flatMap_cons, List.findSome?_cons]
    cases here : report item <;> simpa [here] using both

/-- Nothing is reported exactly if no rule is broken. -/
theorem eq_none_iff (h : Verdict rules found) : found = none ↔ ∀ rule ∈ rules, ¬ rule.broken := by
  induction h with
  | nil => simp
  | broken broken => simp [broken]
  | kept kept _ ih => simp [kept, ih]

/-- A violation is reported exactly if its rule is broken and those before it are kept. -/
theorem eq_some_iff (h : Verdict rules found) {v : Violation} :
    found = some v ↔ ∃ before rule after, rules = before ++ rule :: after ∧
      (∀ r ∈ before, ¬ r.broken) ∧
      rule.broken ∧ v = rule.violation := by
  induction h with
  | nil => simp
  | @broken rule rest broken =>
    constructor
    · intro same
      exact ⟨[], rule, rest, rfl, nofun, broken, (Option.some.inj same).symm⟩
    · rintro ⟨before, other, after, split, kept, _, rfl⟩
      -- The broken rule is the first one of the list, so none comes before the one that is
      -- reported.
      cases before with
      | nil => rw [(List.cons.inj split).1]
      | cons first before =>
        obtain rfl := (List.cons.inj split).1
        exact absurd broken (kept rule List.mem_cons_self)
  | @kept rule rest found kept others ih =>
    rw [ih]
    constructor
    · rintro ⟨before, other, after, rfl, keptBefore, broken, same⟩
      exact ⟨rule :: before, other, after, rfl, List.forall_mem_cons.mpr ⟨kept, keptBefore⟩, broken,
        same⟩
    · rintro ⟨before, other, after, split, keptBefore, broken, same⟩
      cases before with
      | nil =>
        obtain rfl := (List.cons.inj split).1
        exact absurd broken kept
      | cons first before =>
        exact ⟨before, other, after, (List.cons.inj split).2,
          fun r mem => keptBefore r (List.mem_cons_of_mem _ mem), broken, same⟩

end Verdict

end LayoutRule

open LayoutRule

/-! ### The rules of a table -/

/-- A parameter after the leading KIND parameters is a LEN parameter, with a slot that there is. -/
def TypeParameter.layoutRules (p : TypeParameter) : List LayoutRule :=
  [⟨.kindAfterLen p.name, p.isKind⟩,
   ⟨.slotOutOfRange p.name (p.slot?.getD 0), ∃ slot, p.slot? = some slot ∧ lenSlots ≤ slot⟩]

/-- The component at a position is no parent field but at the first one, names a type if it is one,
    has no static descriptor if it is a descriptor, ends inside the instance and is aligned. -/
def Component.layoutRules (bytes : Nat) (c : Component) (position : Nat) : List LayoutRule :=
  [⟨.parentNotFirst c.name, c.isParent ∧ position ≠ 0⟩,
   ⟨.unresolvedParent c.name, c.isParent ∧ c.derivedType? = none⟩,
   ⟨.staticDescriptor c.name, c.isDescriptor ∧ c.static?.isSome⟩,
   ⟨.outOfBounds c.name c.offset.toNat (c.storageBytes?.getD 0) bytes,
     bytes < c.offset.toNat + c.storageBytes?.getD 0⟩,
   ⟨.misaligned c.name c.offset.toNat c.alignment, ¬ c.alignment ∣ c.offset.toNat⟩]

namespace DerivedType

/-- The default image is as long as an instance. -/
def imageRules (ty : DerivedType) : List LayoutRule :=
  ty.image.toList.map fun image =>
    ⟨.imageSize ty.size.toNat image.length, image.length ≠ ty.size.toNat⟩

/-- There is one initializer at most. -/
def initializerRule (ty : DerivedType) : LayoutRule :=
  let count := ty.procedures.countP (·.isInitializer)
  ⟨.severalInitializers count, 1 < count⟩

/-- All rules for a table, in the order in which they are tried. -/
def layoutRules (ty : DerivedType) : List LayoutRule :=
  ty.imageRules ++ (ty.lenParameters.flatMap (·.layoutRules) ++
    (ty.initializerRule :: ty.components.zipIdx.flatMap fun (c, position) =>
      c.layoutRules ty.size.toNat position))

end DerivedType

/-! ### The check tries the rules -/

/-- A sum is too large for a size, or for a word, exactly if it is too large for the size. -/
theorem Word.all_lt_add?_iff {bytes offset size : Nat} (word : bytes < Word.limit) :
    (Word.add? offset size).all (bytes < ·) = true ↔ bytes < offset + size := by
  unfold Word.add? Word.fit?
  split
  · simp
  · simp only [Option.all_none, true_iff]
    omega

/-- A parameter is checked by its rules, in their order. -/
theorem TypeParameter.verdict (p : TypeParameter) : Verdict p.layoutRules p.violation? := by
  unfold layoutRules violation? isKind
  cases p.slot? with
  | none => exact .broken rfl
  | some slot =>
    dsimp only
    refine .kept Bool.false_ne_true ?_
    by_cases out : lenSlots ≤ slot
    · rw [if_pos out]
      exact .broken ⟨slot, rfl, out⟩
    · rw [if_neg out]
      refine .kept ?_ .nil
      rintro ⟨_, same, le⟩
      exact out (Option.some.inj same ▸ le)

/-- So is a component. -/
theorem Component.verdict {bytes : Nat} (word : bytes < Word.limit)
    (c : Component) (position : Nat) :
    Verdict (c.layoutRules bytes position) (c.violation? bytes position) := by
  unfold layoutRules violation?
  -- One rule after the other, each with the test that decides it.
  refine .ite (by simp) (.ite (by simp) (.ite (by simp) (.ite ?_ (.ite ?_ .nil))))
  · exact Word.all_lt_add?_iff word
  · rw [bne_iff_ne, Nat.dvd_iff_mod_eq_zero]

namespace DerivedType

/-- The image is checked by its rules. -/
theorem verdict_image (ty : DerivedType) : Verdict ty.imageRules ty.imageViolation? := by
  unfold imageRules imageViolation?
  cases ty.image with
  | none => exact .nil
  | some image =>
    dsimp only
    by_cases fits : image.length = ty.size.toNat
    · rw [if_pos fits]
      exact .kept (not_not_intro fits) .nil
    · rw [if_neg fits]
      exact .broken fits

/-- There is one rule about initializers. -/
theorem verdict_initializer (ty : DerivedType) :
    Verdict [ty.initializerRule] ty.initializerViolation? := by
  unfold initializerViolation?
  dsimp only
  by_cases several : 1 < ty.procedures.countP (·.isInitializer)
  · rw [if_pos several]
    exact .broken several
  · rw [if_neg several]
    exact .kept several .nil

/-- The check of a table comes to the verdict on its rules. -/
theorem verdict (ty : DerivedType) : Verdict ty.layoutRules ty.violation? := by
  have components : Verdict (ty.components.zipIdx.flatMap fun (c, position) =>
    c.layoutRules ty.size.toNat position)
      (ty.components.zipIdx.findSome? fun (c, position) => c.violation? ty.size.toNat position) :=
    .flatMap fun x _ => x.1.verdict (UInt64.toNat_lt ty.size) x.2
  have parameters : Verdict (ty.lenParameters.flatMap (·.layoutRules))
      (ty.lenParameters.findSome? (·.violation?)) :=
    .flatMap fun p _ => p.verdict
  have whole :=
    ty.verdict_image.append (parameters.append (ty.verdict_initializer.append components))
  unfold violation?
  simp only [Option.orElse_eq_orElse, Option.orElse_eq_or]
  exact whole

/-- What holds of all rules holds of those for each part of the table. -/
theorem forall_layoutRules_iff (ty : DerivedType) (P : LayoutRule → Prop) :
    (∀ rule ∈ ty.layoutRules, P rule) ↔
      (∀ rule ∈ ty.imageRules, P rule) ∧ (∀ p ∈ ty.lenParameters, ∀ rule ∈ p.layoutRules, P rule) ∧
        P ty.initializerRule ∧
        ∀ (position : Nat) (c : Component), ty.components[position]? = some c →
          ∀ rule ∈ c.layoutRules ty.size.toNat position, P rule := by
  have components : (∀ rule ∈ ty.components.zipIdx.flatMap fun (c, position) =>
        c.layoutRules ty.size.toNat position, P rule) ↔
      ∀ (position : Nat) (c : Component), ty.components[position]? = some c →
        ∀ rule ∈ c.layoutRules ty.size.toNat position, P rule := by
    constructor
    · intro all position c there rule mem
      exact all rule (List.mem_flatMap.mpr
        ⟨(c, position), List.mk_mem_zipIdx_iff_getElem?.mpr there, mem⟩)
    · intro each rule mem
      obtain ⟨⟨c, position⟩, there, mem⟩ := List.mem_flatMap.mp mem
      exact each position c (List.mk_mem_zipIdx_iff_getElem?.mp there) rule mem
  have parameters : (∀ rule ∈ ty.lenParameters.flatMap (·.layoutRules), P rule) ↔
      ∀ p ∈ ty.lenParameters, ∀ rule ∈ p.layoutRules, P rule := by
    simp only [List.mem_flatMap]
    exact ⟨fun all p mem rule there => all rule ⟨p, mem, there⟩, fun each rule ⟨p, mem, there⟩ =>
      each p mem rule there⟩
  rw [layoutRules, List.forall_mem_append, List.forall_mem_append, List.forall_mem_cons,
    components, parameters]

end DerivedType

/-! ### What an accepted table keeps to -/

/-- A parameter breaks no rule exactly if it is a LEN parameter with a slot. -/
theorem TypeParameter.keepsRules_iff (p : TypeParameter) :
    (∀ rule ∈ p.layoutRules, ¬ rule.broken) ↔ ∃ slot, p.slot? = some slot ∧ slot < lenSlots := by
  simp only [layoutRules, List.forall_mem_cons, isKind]
  constructor
  · rintro ⟨len, inRange, _⟩
    cases same : p.slot? with
    | none => simp [same] at len
    | some slot => exact ⟨slot, rfl, Nat.lt_of_not_le fun le => inRange ⟨slot, same, le⟩⟩
  · rintro ⟨slot, same, lt⟩
    simp [same, lt]

/-- A component breaks no rule exactly if it is in its place. -/
theorem Component.keepsRules_iff {bytes : Nat} (c : Component) (position : Nat) :
    (∀ rule ∈ c.layoutRules bytes position, ¬ rule.broken) ↔
      (c.isParent → position = 0 ∧ ∃ parent, c.derivedType? = some parent) ∧
        (c.isDescriptor → c.static? = none) ∧ c.offset.toNat + c.storageBytes?.getD 0 ≤ bytes ∧
        c.alignment ∣ c.offset.toNat := by
  simp only [layoutRules, List.forall_mem_cons]
  constructor
  · rintro ⟨first, named, static, inside, aligned, _⟩
    refine ⟨fun isParent => ⟨Decidable.byContradiction fun later => first ⟨isParent, later⟩, ?_⟩,
      fun isDescriptor => ?_, Nat.not_lt.mp inside, Decidable.not_not.mp aligned⟩
    · exact Option.ne_none_iff_exists'.mp fun unnamed => named ⟨isParent, unnamed⟩
    · exact Option.not_isSome_iff_eq_none.mp fun there => static ⟨isDescriptor, there⟩
  · rintro ⟨parent, slot, inside, aligned⟩
    refine ⟨fun broken => broken.2 (parent broken.1).1, ?_, ?_, Nat.not_lt.mpr inside,
      not_not_intro aligned, nofun⟩
    · rintro ⟨isParent, unnamed⟩
      obtain ⟨_, named⟩ := (parent isParent).2
      cases unnamed.symm.trans named
    · rintro ⟨isDescriptor, static⟩
      rw [slot isDescriptor] at static
      cases static

namespace DerivedType

/-- The image breaks no rule exactly if it is as long as an instance. -/
theorem keepsImageRules_iff (ty : DerivedType) :
    (∀ rule ∈ ty.imageRules, ¬ rule.broken) ↔ ∀ image, ty.image = some image →
    image.length = ty.size.toNat := by
  simp [imageRules]

/-- What is asked of a table. -/
structure KeepsLayout (ty : DerivedType) : Prop where
  image : ∀ image, ty.image = some image → image.length = ty.size.toNat
  parameters : ∀ p ∈ ty.lenParameters, ∃ slot, p.slot? = some slot ∧ slot < lenSlots
  initializers : ty.procedures.countP (·.isInitializer) ≤ 1
  parents : ∀ position c, ty.components[position]? = some c → c.isParent →
    position = 0 ∧ ∃ parent, c.derivedType? = some parent
  descriptors : ∀ c ∈ ty.components, c.isDescriptor → c.static? = none
  inside : ∀ c ∈ ty.components, c.offset.toNat + c.storageBytes?.getD 0 ≤ ty.size.toNat
  aligned : ∀ c ∈ ty.components, c.alignment ∣ c.offset.toNat

variable {ty : DerivedType}

/-- A table that breaks no rule keeps to all that is asked of it, and the other way round. -/
theorem keepsLayout_iff : ty.KeepsLayout ↔ ∀ rule ∈ ty.layoutRules, ¬ rule.broken := by
  rw [forall_layoutRules_iff, ty.keepsImageRules_iff]
  simp only [TypeParameter.keepsRules_iff, Component.keepsRules_iff]
  constructor
  · intro h
    refine ⟨h.image, h.parameters, Nat.not_lt.mpr h.initializers, fun position c there => ?_⟩
    have mem := List.mem_of_getElem? there
    exact ⟨h.parents position c there, h.descriptors c mem, h.inside c mem, h.aligned c mem⟩
  · rintro ⟨image, parameters, initializers, components⟩
    have kept {c : Component} (mem : c ∈ ty.components) :
        (c.isDescriptor → c.static? = none) ∧
          c.offset.toNat + c.storageBytes?.getD 0 ≤ ty.size.toNat ∧
          c.alignment ∣ c.offset.toNat := by
      obtain ⟨position, there⟩ := List.mem_iff_getElem?.mp mem
      exact (components position c there).2
    exact ⟨image, parameters, Nat.not_lt.mp initializers, fun position c there =>
      (components position c there).1,
      fun c mem => (kept mem).1, fun c mem => (kept mem).2.1, fun c mem => (kept mem).2.2⟩

/-- A table is accepted exactly if it keeps to what is asked of it. -/
theorem checkLayout_eq_ok_iff_keepsLayout : ty.checkLayout = .ok () ↔ ty.KeepsLayout := by
  rw [checkLayout_eq_ok_iff, ty.verdict.eq_none_iff, keepsLayout_iff]

/-- A parent field that is asked for a type has elements of this type, as it is no descriptor. -/
theorem KeepsLayout.exists_embedded (h : ty.KeepsLayout) {c : Component} (mem : c ∈ ty.components)
    (isParent : c.isParent) : ∃ shape parent, c.embedded? = some (shape, parent) := by
  obtain ⟨position, there⟩ := List.mem_iff_getElem?.mp mem
  obtain ⟨_, parent, named⟩ := h.parents position c there isParent
  obtain ⟨shape, static, type⟩ := Option.bind_eq_some_iff.mp named
  have plain : c.isDescriptor = false := Bool.eq_false_iff.mpr fun slot => by
    cases static.symm.trans (h.descriptors c mem slot)
  exact ⟨shape, parent, Component.embedded?_eq_some_iff.mpr ⟨plain, static, type⟩⟩

end DerivedType

/-! ### What a violation says -/

/-- A violation is one of the table. What it names is there, and it is against the rule with exactly
    the numbers that the violation tells. -/
def Violation.TrueOf (ty : DerivedType) : Violation → Prop
  | imageSize expected actual =>
    ∃ image, ty.image = some image ∧ expected = ty.size.toNat ∧
    actual = image.length ∧ actual ≠ expected
  | kindAfterLen parameter =>
    ∃ before p after, ty.parameters = before ++ p :: after ∧ p.name = parameter ∧ p.isKind ∧
    ∃ q ∈ before, q.isLen
  | slotOutOfRange parameter slot =>
    ∃ p ∈ ty.parameters, p.name = parameter ∧ p.slot? = some slot ∧ lenSlots ≤ slot
  | severalInitializers count => count = ty.procedures.countP (·.isInitializer) ∧ 1 < count
  | parentNotFirst component =>
    ∃ position c, ty.components[position]? = some c ∧ c.name = component ∧ c.isParent ∧ position ≠ 0
  | unresolvedParent component =>
    ∃ c ∈ ty.components, c.name = component ∧ c.isParent ∧ c.derivedType? = none
  | staticDescriptor component =>
    ∃ c ∈ ty.components, c.name = component ∧ c.isDescriptor ∧ c.static?.isSome
  | outOfBounds component offset size bytes =>
    ∃ c ∈ ty.components, c.name = component ∧ offset = c.offset.toNat ∧
      size = c.storageBytes?.getD 0 ∧
      bytes = ty.size.toNat ∧ bytes < offset + size
  | misaligned component offset alignment =>
    ∃ c ∈ ty.components, c.name = component ∧ offset = c.offset.toNat ∧ alignment = c.alignment ∧
    ¬ alignment ∣ offset

namespace DerivedType

variable {ty : DerivedType}

/-- A KIND parameter that is not among the leading ones comes after a LEN parameter. -/
theorem exists_len_before {p : TypeParameter} (mem : p ∈ ty.lenParameters) (kind : p.isKind) :
    ∃ before after, ty.parameters = before ++ p :: after ∧ ∃ q ∈ before, q.isLen := by
  have split : ty.kindParameters ++ ty.lenParameters = ty.parameters :=
    List.takeWhile_append_dropWhile
  cases rest : ty.lenParameters with
  | nil =>
    rw [rest] at mem
    cases mem
  | cons q others =>
    -- The first one that is left is no KIND parameter, so the one that is looked for comes later.
    have len : q.isKind = false := by
      have first := List.head?_dropWhile_not (fun p : TypeParameter => p.isKind) ty.parameters
      rw [show ty.parameters.dropWhile (fun p => p.isKind) = q :: others from rest] at first
      simpa using first
    rw [rest] at mem split
    rcases List.mem_cons.mp mem with rfl | mem
    · cases len.symm.trans kind
    · obtain ⟨between, after, rfl⟩ := List.append_of_mem mem
      refine ⟨ty.kindParameters ++ q :: between, after, by simp [← split], q, by simp, ?_⟩
      simpa [TypeParameter.isKind, TypeParameter.isLen, Option.isNone_eq_false_iff] using len

/-- Where a rule is broken, its violation is true. -/
theorem trueOf_of_broken : ∀ rule ∈ ty.layoutRules, rule.broken → rule.violation.TrueOf ty := by
  rw [forall_layoutRules_iff]
  refine ⟨?_, fun p mem => ?_, fun several => ⟨rfl, several⟩, fun position c there => ?_⟩
  · intro rule mem broken
    obtain ⟨image, there, rfl⟩ := List.mem_map.mp mem
    exact ⟨image, Option.mem_toList.mp there, rfl, rfl, broken⟩
  · simp only [TypeParameter.layoutRules, List.forall_mem_cons]
    refine ⟨fun kind => ?_, ?_, nofun⟩
    · obtain ⟨before, after, split, len⟩ := exists_len_before mem kind
      exact ⟨before, p, after, split, rfl, kind, len⟩
    · rintro ⟨slot, same, le⟩
      refine ⟨p, (List.dropWhile_sublist _).mem mem, rfl, ?_, ?_⟩
      · rw [same, Option.getD_some]
      · rwa [same, Option.getD_some]
  · have mem := List.mem_of_getElem? there
    simp only [Component.layoutRules, List.forall_mem_cons]
    exact ⟨fun broken => ⟨position, c, there, rfl, broken⟩, fun broken => ⟨c, mem, rfl, broken⟩,
      fun broken => ⟨c, mem, rfl, broken⟩, fun broken => ⟨c, mem, rfl, rfl, rfl, rfl, broken⟩,
      fun broken => ⟨c, mem, rfl, rfl, rfl, broken⟩, nofun⟩

/-- A table is accepted exactly if it keeps to what is asked of it. What is reported of another one
    is true of it. It is what the first broken rule reports: the rules are tried in the order image,
    parameters, number of initializers, components, and those of one parameter or component in the
    order in which they are listed for it. -/
theorem checkLayout_verdict (ty : DerivedType) :
    (ty.checkLayout = .ok () ↔ ty.KeepsLayout) ∧
    (∀ e, ty.checkLayout = .error e → e.typeName = ty.name ∧ e.violation.TrueOf ty) ∧
    ∀ e, ty.checkLayout = .error e ↔
      e.typeName = ty.name ∧ ∃ before rule after, ty.layoutRules = before ++ rule :: after ∧
        (∀ r ∈ before, ¬ r.broken) ∧ rule.broken ∧ e.violation = rule.violation := by
  have reports : ∀ e, ty.checkLayout = .error e ↔
      e.typeName = ty.name ∧ ∃ before rule after, ty.layoutRules = before ++ rule :: after ∧
        (∀ r ∈ before, ¬ r.broken) ∧ rule.broken ∧ e.violation = rule.violation := by
    intro e
    rw [← ty.verdict.eq_some_iff, checkLayout]
    cases ty.violation? with
    | none => simp
    | some v =>
      obtain ⟨typeName, violation⟩ := e
      simp [eq_comm]
  refine ⟨checkLayout_eq_ok_iff_keepsLayout, fun e refused => ?_, reports⟩
  obtain ⟨named, before, rule, after, split, _, broken, same⟩ := (reports e).mp refused
  refine ⟨named, ?_⟩
  rw [same]
  exact trueOf_of_broken rule (by simp [split]) broken

end DerivedType

end DerivedTypes
