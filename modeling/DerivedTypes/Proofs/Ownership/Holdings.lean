import DerivedTypes.Machine.Teardown
import DerivedTypes.Proofs.DerivedType.Parts
import DerivedTypes.Proofs.Memory.Places
import DerivedTypes.Proofs.Ownership.Forest

namespace DerivedTypes

/-!
# Who owns what

An allocatable descriptor with storage owns the block that its base points to, and the descriptors
in this block may own further blocks.

* `Descriptor.slots`: where the descriptors in described storage lie;
* `Memory.Backs`: the storage of a descriptor is a live block of the size that the descriptor says;
* `Memory.Owns`: descriptors own the blocks of a forest. This depends on nothing but these blocks
  (`Owns.congr`), and listing the descriptors in another order changes nothing that matters
  (`Owns.perm`).
-/

/-! ### Types with parents -/

namespace DerivedType

/-- No component but the first is a parent field, and a parent field is one element at the beginning
    of the instance. -/
structure ParentFirst (ty : DerivedType) : Prop where
  onlyFirst : ∀ c ∈ ty.components.tail, c.isParent = false
  embedded : ∀ c, ty.components.head? = some c → c.isParent = true →
    c.offset = 0 ∧ ∃ shape parent, c.embedded? = some (shape, parent) ∧ shape.elementCount = 1

/-- Instances of the type are torn down completely. -/
structure TeardownSound (ty : DerivedType) : Prop where
  laidOut : ty.LaidOut
  parentFirst : ty.ParentFirst

end DerivedType

/-! ### Described storage -/

namespace Descriptor

/-- The descriptor is allocatable and has storage. -/
def isOwner (d : Descriptor) : Bool := d.isAllocatable && d.isAllocated

/-- The descriptors in the described elements, at any depth. -/
def slots (d : Descriptor) : List Address :=
  match d.base, d.derivedType? with
  | some data, some ty => (d.elementAddresses data).flatMap ty.slots
  | _, _ => []

/-- Elements of derived type are as far apart as instances of the type are long, and the type can be
    torn down. -/
def Typed (d : Descriptor) : Prop :=
  ∀ ty, d.derivedType? = some ty → d.elementSize = ty.size ∧ ty.Throughout DerivedType.TeardownSound

variable {d : Descriptor}

/-- Without storage there are no descriptors in it. -/
theorem slots_of_unallocated (idle : d.isAllocated = false) : d.slots = [] := by
  have null : d.base = none := by simpa [isAllocated] using idle
  rw [slots, null]

/-- The descriptors in storage are those of its elements, if these are of a derived type. -/
theorem slots_of_base {data : Address} (base : d.base = some data) :
    d.slots = match d.derivedType? with
      | none => []
      | some ty => (d.elementAddresses data).flatMap ty.slots := by
  rw [slots, base]
  cases d.derivedType? <;> rfl

/-- A descriptor in storage belongs to one of the elements. -/
theorem mem_slots {s : Address} :
    s ∈ d.slots ↔ ∃ data ty, d.base = some data ∧ d.derivedType? = some ty ∧
      ∃ e ∈ d.elementAddresses data, s ∈ ty.slots e := by
  unfold slots
  cases d.base with
  | none => simp
  | some data =>
    cases d.derivedType? with
    | none => simp
    | some ty => simp

/-- A block for the described elements has room for all of them. -/
theorem elements_le_blockSize {size : Nat} (h : d.blockSize? = some size) :
    d.elementCount * d.elementSize.toNat ≤ size ∧ 0 < size := by
  obtain ⟨bytes, storage, fits⟩ := Option.bind_eq_some_iff.mp h
  obtain ⟨count, counted, product⟩ := Option.bind_eq_some_iff.mp storage
  have count : d.elementCount = count := by rw [elementCount, counted, Option.getD_some]
  have bytes := (Word.fit?_eq_some_iff.mp product).1
  unfold DerivedTypes.blockSize? at fits
  dsimp only at fits
  split at fits
  · have := Option.some.inj fits
    rw [count, bytes]
    omega
  · cases fits

/-- The type of the elements lies as it should. -/
theorem laidOut_of_typed (typed : d.Typed) {ty : DerivedType} (named : d.derivedType? = some ty) :
    ty.Throughout DerivedType.LaidOut :=
  (typed ty named).2.imp fun _ sound => sound.laidOut

/-- The descriptors in described elements lie among the bytes of these. -/
theorem exists_offset_of_mem_slots (typed : d.Typed) {data s : Address} (base : d.base = some data)
    (mem : s ∈ d.slots) :
    ∃ i, s = data + i ∧ i + descriptorBytes ≤ d.elementCount * d.elementSize.toNat := by
  obtain ⟨data', ty, base', named, e, element, inside⟩ := mem_slots.mp mem
  obtain rfl := Option.some.inj (base.symm.trans base')
  obtain ⟨j, rfl, le⟩ := exists_offset_of_mem_elementAddresses element
  obtain ⟨i, rfl, fits⟩ :=
    DerivedType.exists_offset_of_mem_slots (laidOut_of_typed typed named) inside
  refine ⟨j + i, Address.add_add .., ?_⟩
  rw [(typed ty named).1] at le ⊢
  omega

/-- No two descriptors in described elements have a byte in common. -/
theorem pairwise_slots (typed : d.Typed) :
    d.slots.Pairwise fun s t => Address.Apart s descriptorBytes t descriptorBytes := by
  cases base : d.base with
  | none => rw [slots, base]; exact List.Pairwise.nil
  | some data =>
    rw [slots_of_base base]
    cases named : d.derivedType? with
    | none => exact List.Pairwise.nil
    | some ty =>
      have laid := laidOut_of_typed typed named
      have same := (typed ty named).1
      refine List.pairwise_flatMap.mpr ⟨fun e _ => DerivedType.pairwise_slots laid e,
        (d.pairwise_elementAddresses data).imp ?_⟩
      intro e f apart s inE t inF x inS inT
      obtain ⟨i, rfl, le⟩ := DerivedType.exists_offset_of_mem_slots laid inE
      obtain ⟨j, rfl, le'⟩ := DerivedType.exists_offset_of_mem_slots laid inF
      rw [← same] at le le'
      exact apart x (inS.of_sub le) (inT.of_sub le')

end Descriptor

/-! ### Blocks behind descriptors -/

/-- A byte that is read as an attribute is the byte of that attribute. -/
theorem Attribute.toByte_of_ofByte? {byte : UInt8} {attr : Attribute}
    (h : ofByte? byte = some attr) :
    byte = attr.toByte := by
  have found := List.find?_some h
  exact (eq_of_beq found).symm

namespace Memory

/-- The descriptor at an address, where there is one. -/
def slotValue (m : Memory) (a : Address) : Descriptor :=
  (m.descriptor? a).getD .zeroed

/-- What can be read is what is held. -/
theorem slotValue_of_descriptor? {m : Memory} {a : Address} {d : Descriptor}
    (there : m.descriptor? a = some d) : m.slotValue a = d := by
  rw [slotValue, there, Option.getD_some]

/-- The first bytes of a descriptor tell whether it owns storage. -/
theorem ownsStorage_of_descriptor? {m : Memory} {a : Address} {d : Descriptor}
    (there : m.descriptor? a = some d) : m.ownsStorage a = d.isOwner := by
  have fields := descriptor?_eq_some_iff.mp there
  obtain ⟨word, base, target⟩ := Option.map_eq_some_iff.mp fields.base
  obtain ⟨byte, read, decoded⟩ := Option.bind_eq_some_iff.mp fields.attr
  have kind : (some byte == some Attribute.allocatable.toByte) = (d.attr == .allocatable) := by
    rw [Attribute.toByte_of_ofByte? decoded]
    cases d.attr <;> rfl
  have null : (some word != some 0) = (m.placement.address? word).isSome := by
    unfold Placement.address?
    by_cases zero : word = 0 <;> simp [zero]
  rw [ownsStorage, read, base, kind, null, target]
  rfl

/-- The storage of a descriptor is a live block, as large as the descriptor says. -/
structure Backs (m : Memory) (d : Descriptor) (block size : Nat) : Prop where
  allocatable : d.isAllocatable = true
  base : d.base = some ⟨.heap block, 0⟩
  live : (m.region? (.heap block)).map (·.size) = some size
  size : d.blockSize? = some size
  typed : d.Typed

namespace Backs

variable {m m' : Memory} {d : Descriptor} {block size : Nat}

/-- What has a block for its storage owns it. -/
theorem isOwner (h : m.Backs d block size) : d.isOwner = true := by
  rw [Descriptor.isOwner, h.allocatable, Descriptor.isAllocated, h.base]
  rfl

/-- The block is live and has its size. -/
theorem exists_bytes (h : m.Backs d block size) :
    ∃ bytes, m.region? (.heap block) = some bytes ∧ bytes.size = size :=
  Option.map_eq_some_iff.mp h.live

/-- The descriptors in the storage lie in the block. -/
theorem slot_inside (h : m.Backs d block size) {s : Address} (mem : s ∈ d.slots) :
    s.region = .heap block ∧ s.offset + descriptorBytes ≤ size := by
  obtain ⟨i, rfl, fits⟩ := Descriptor.exists_offset_of_mem_slots h.typed h.base mem
  have room := (Descriptor.elements_le_blockSize h.size).1
  refine ⟨rfl, ?_⟩
  rw [Address.offset_add, Nat.zero_add]
  exact fits.trans room

/-- The descriptors in the storage can be read and written. -/
theorem spans_slot (h : m.Backs d block size) {s : Address} (mem : s ∈ d.slots) :
    m.spans s descriptorBytes := by
  obtain ⟨bytes, live, same⟩ := h.exists_bytes
  obtain ⟨region, fits⟩ := h.slot_inside mem
  exact spans_iff.mpr ⟨bytes, by rw [region, live], by omega⟩

/-- The block stays the storage as long as it has the same size. -/
theorem congr (h : m.Backs d block size)
    (same : (m'.region? (.heap block)).map (·.size) = (m.region? (.heap block)).map (·.size)) :
    m'.Backs d block size :=
  { h with live := same.trans h.live }

end Backs

/-- Descriptors own the blocks of a forest, one behind the other: the block that a descriptor points
    to is a root, and the blocks inside it are those that the descriptors in it own. All descriptors
    on the way have the property `P`. -/
inductive Owns (m : Memory) (P : Descriptor → Prop) : List Descriptor → Forest → Prop
  /-- No descriptor owns nothing. -/
  | nil : Owns m P [] .nil
  /-- A descriptor that is not allocatable or has no storage owns nothing. -/
  | idle {d : Descriptor} {rest : List Descriptor} {f : Forest} (fine : P d)
      (idle : d.isOwner = false)
      (others : Owns m P rest f) : Owns m P (d :: rest) f
  /-- A descriptor owns its block and what the descriptors in it own. -/
  | own {d : Descriptor} {rest : List Descriptor} {block size : Nat}
      {inside f : Forest} (fine : P d)
      (backs : m.Backs d block size) (readable : ∀ s ∈ d.slots, (m.descriptor? s).isSome)
      (contents : Owns m P (d.slots.map m.slotValue) inside) (others : Owns m P rest f) :
      Owns m P (d :: rest) (.cons block size inside f)

namespace Owns

variable {m m' : Memory} {P : Descriptor → Prop} {ds es : List Descriptor} {f g : Forest}

/-- Descriptors without blocks own nothing. -/
theorem of_idle (idle : ∀ d ∈ ds, P d ∧ d.isOwner = false) : m.Owns P ds .nil := by
  induction ds with
  | nil => exact .nil
  | cons d rest ih =>
    obtain ⟨fine, idleHere⟩ := idle d List.mem_cons_self
    exact .idle fine idleHere (ih fun e mem => idle e (List.mem_cons_of_mem _ mem))

/-- A descriptor without a block owns nothing. -/
theorem eq_nil_of_idle {d : Descriptor} (h : m.Owns P [d] f) (idle : d.isOwner = false) :
    f = .nil := by
  cases h with
  | idle _ _ others =>
    cases others
    rfl
  | own _ backs =>
    rw [backs.isOwner] at idle
    cases idle

/-- All descriptors have the property that ownership asks for. -/
theorem fine (h : m.Owns P ds f) : ∀ d ∈ ds, P d := by
  induction h with
  | nil => exact fun _ mem => nomatch mem
  | idle fine _ _ ih => exact List.forall_mem_cons.mpr ⟨fine, ih⟩
  | own fine _ _ _ _ _ ih => exact List.forall_mem_cons.mpr ⟨fine, ih⟩

/-- The blocks of the forest are live, with their sizes, and none is empty. -/
theorem live (h : m.Owns P ds f) {block size : Nat} (mem : (block, size) ∈ f.blocks) :
    (m.region? (.heap block)).map (·.size) = some size ∧ 0 < size := by
  induction h with
  | nil => cases mem
  | idle _ _ _ ih => exact ih mem
  | own _ backs _ _ _ insideIh restIh =>
    rcases List.mem_append.mp mem with inside | mem
    · exact insideIh inside
    · rcases List.mem_cons.mp mem with same | rest
      · cases same
        exact ⟨backs.live, (Descriptor.elements_le_blockSize backs.size).2⟩
      · exact restIh rest

/-- Descriptors behind each other own what they own apart. -/
theorem append (h : m.Owns P ds f) (h' : m.Owns P es g) : m.Owns P (ds ++ es) (f.append g) := by
  induction h with
  | nil => exact h'
  | idle fine idle _ ih => exact .idle fine idle ih
  | own fine backs readable contents _ _ ih => exact .own fine backs readable contents ih

/-- What is owned by some descriptors and others falls into two forests. -/
theorem exists_of_append {f : Forest} (h : m.Owns P (ds ++ es) f) :
    ∃ g k, f = g.append k ∧ m.Owns P ds g ∧ m.Owns P es k := by
  induction ds generalizing f with
  | nil => exact ⟨.nil, f, rfl, .nil, h⟩
  | cons d rest ih =>
    cases h with
    | idle fine idle others =>
      obtain ⟨g, k, rfl, first, second⟩ := ih others
      exact ⟨g, k, rfl, .idle fine idle first, second⟩
    | own fine backs readable contents others =>
      obtain ⟨g, k, rfl, first, second⟩ := ih others
      exact ⟨.cons _ _ _ g, k, rfl, .own fine backs readable contents first, second⟩

/-- Each of several descriptors owns a tree, or nothing. -/
theorem exists_of_mem (h : m.Owns P ds f) {d : Descriptor} (mem : d ∈ ds) :
    ∃ tree, m.Owns P [d] tree := by
  obtain ⟨before, after, rfl⟩ := List.append_of_mem mem
  obtain ⟨_, _, _, _, ownsRest⟩ := h.exists_of_append
  have ownsRest : m.Owns P ([d] ++ after) _ := ownsRest
  obtain ⟨tree, _, _, owns, _⟩ := ownsRest.exists_of_append
  exact ⟨tree, owns⟩

/-- An owner has a block. -/
theorem exists_backs (h : m.Owns P ds f) {d : Descriptor} (mem : d ∈ ds)
    (owner : d.isOwner = true) :
    ∃ block size, m.Backs d block size := by
  induction h with
  | nil => cases mem
  | idle _ idle _ ih =>
    rcases List.mem_cons.mp mem with rfl | later
    · cases owner.symm.trans idle
    · exact ih later
  | own _ backs _ _ _ _ ih =>
    rcases List.mem_cons.mp mem with rfl | later
    · exact ⟨_, _, backs⟩
    · exact ih later

/-- Where all storage is owned, a base is the beginning of a live block. -/
theorem exists_block_of_base (h : m.Owns P ds f)
    (owners : ∀ d, P d → d.isAllocated = true → d.isOwner = true) {d : Descriptor} (mem : d ∈ ds)
    {a : Address} (base : d.base = some a) :
    ∃ block, a = ⟨.heap block, 0⟩ ∧ (m.region? (.heap block)).isSome := by
  have allocated : d.isAllocated = true := by rw [Descriptor.isAllocated, base, Option.isSome_some]
  obtain ⟨block, size, backs⟩ := h.exists_backs mem (owners d (h.fine d mem) allocated)
  obtain ⟨bytes, live, _⟩ := backs.exists_bytes
  exact ⟨block, Option.some.inj (base.symm.trans backs.base), by rw [live, Option.isSome_some]⟩

/-- So bases lie in live regions. -/
theorem pointsAtLive (h : m.Owns P ds f)
    (owners : ∀ d, P d → d.isAllocated = true → d.isOwner = true) {d : Descriptor} (mem : d ∈ ds) :
    m.PointsAtLive d := by
  intro a base
  obtain ⟨block, rfl, live⟩ := h.exists_block_of_base owners mem base
  exact live

/-- Who owns what is the same in a memory with blocks of the same sizes, if descriptors in these
    blocks are read as before. -/
theorem congr_of_reads (h : m.Owns P ds f)
    (size : ∀ b ∈ f.numbers, (m'.region? (.heap b)).map (·.size) =
      (m.region? (.heap b)).map (·.size))
    (read : ∀ s d tree, m.descriptor? s = some d → m.Owns P [d] tree → ∀ b ∈ f.numbers,
      s.region = .heap b → m'.descriptor? s = some d) : m'.Owns P ds f := by
  induction h with
  | nil => exact .nil
  | idle fine idle _ ih => exact .idle fine idle (ih size read)
  | @own d rest block n inside f fine backs readable contents _ insideIh restIh =>
    simp only [Forest.mem_numbers_cons] at size read
    -- The descriptors in the block are read as before.
    have same : ∀ s ∈ d.slots, m'.descriptor? s = m.descriptor? s := by
      intro s mem
      obtain ⟨e, there⟩ := Option.isSome_iff_exists.mp (readable s mem)
      obtain ⟨tree, owns⟩ := contents.exists_of_mem (List.mem_map_of_mem mem)
      rw [slotValue_of_descriptor? there] at owns
      rw [read s e tree there owns block (.inr (.inl rfl)) (backs.slot_inside mem).1, there]
    have values : d.slots.map m'.slotValue = d.slots.map m.slotValue := by
      refine List.map_congr_left fun s mem => ?_
      rw [slotValue, slotValue, same s mem]
    refine .own fine (backs.congr (size block (.inr (.inl rfl)))) (fun s mem => ?_) ?_ ?_
    · rw [same s mem]
      exact readable s mem
    · rw [values]
      exact insideIh (fun b mem => size b (.inl mem)) fun s d tree there owns b mem =>
        read s d tree there owns b (.inl mem)
    · exact restIh (fun b mem => size b (.inr (.inr mem))) fun s d tree there owns b mem =>
        read s d tree there owns b (.inr (.inr mem))

/-- Who owns what is the same in a memory with the same blocks. -/
theorem congr (h : m.Owns P ds f) (placement : m'.placement = m.placement)
    (tables : m'.tables = m.tables)
    (same : ∀ b ∈ f.numbers, m'.region? (.heap b) = m.region? (.heap b)) : m'.Owns P ds f := by
  refine h.congr_of_reads (fun b mem => by rw [same b mem]) fun s _ _ there _ b mem region => ?_
  have kept : m'.region? s.region = m.region? s.region := by rw [region, same b mem]
  rw [(agrees_of_region placement tables kept _).descriptor? (spans_of_descriptor? there), there]

/-- Other blocks may come and go, as long as words for live blocks stand for these. -/
theorem congr_of_pointers (h : m.Owns P ds f) (pointers : m.KeepsPointers m')
    (owners : ∀ d, P d → d.isAllocated = true → d.isOwner = true)
    (same : ∀ b ∈ f.numbers, m'.region? (.heap b) = m.region? (.heap b)) : m'.Owns P ds f := by
  refine h.congr_of_reads (fun b mem => by rw [same b mem]) fun s d _ there owns b mem region => ?_
  have kept : m'.region? s.region = m.region? s.region := by rw [region, same b mem]
  exact pointers.descriptor? there (owns.pointsAtLive owners List.mem_cons_self)
    (fun _ => spans_congr kept _) fun _ inside => byte?_congr (by rw [inside.1, kept])

/-- One of several descriptors owns a tree, and others own the other blocks. While these stay as
    they are, another descriptor with a tree of its own may take its place. -/
theorem exists_middle {before after : List Descriptor} {d : Descriptor}
    (h : m.Owns P (before ++ d :: after) f)
    (owners : ∀ d, P d → d.isAllocated = true → d.isOwner = true) :
    ∃ tree others, m.Owns P [d] tree ∧ f.blocks.Perm (tree.blocks ++ others) ∧
      ∀ (m' : Memory) (d' : Descriptor) (tree' : Forest), m.KeepsPointers m' →
        (∀ b ∈ others, m'.region? (.heap b.1) = m.region? (.heap b.1)) → m'.Owns P [d'] tree' →
        ∃ f', m'.Owns P (before ++ d' :: after) f' ∧ f'.blocks.Perm (tree'.blocks ++ others) := by
  obtain ⟨first, rest, rfl, ownsFirst, ownsRest⟩ := h.exists_of_append
  have ownsRest : m.Owns P ([d] ++ after) rest := ownsRest
  obtain ⟨tree, last, rfl, owns, ownsLast⟩ := ownsRest.exists_of_append
  -- The trees before and behind the one of the descriptor.
  have split (tree : Forest) :
      (first.append (tree.append last)).blocks.Perm
        (tree.blocks ++ (first.blocks ++ last.blocks)) := by
    rw [Forest.blocks_append, Forest.blocks_append]
    exact List.perm_append_comm_assoc ..
  refine ⟨tree, first.blocks ++ last.blocks, owns, split tree, ?_⟩
  intro m' d' tree' pointers same owns'
  have keptFirst := ownsFirst.congr_of_pointers pointers owners fun b mem => by
    obtain ⟨c, there, rfl⟩ := List.mem_map.mp mem
    exact same c (List.mem_append_left _ there)
  have keptLast := ownsLast.congr_of_pointers pointers owners fun b mem => by
    obtain ⟨c, there, rfl⟩ := List.mem_map.mp mem
    exact same c (List.mem_append_right _ there)
  exact ⟨first.append (tree'.append last), keptFirst.append (owns'.append keptLast), split tree'⟩

/-- In which order descriptors are listed does not matter. -/
theorem perm (h : m.Owns P ds f) (reordered : ds.Perm es) : ∃ g, m.Owns P es g ∧ f.Similar g := by
  induction reordered generalizing f with
  | nil => exact ⟨f, h, .refl f⟩
  | cons d _ ih =>
    cases h with
    | idle fine idle others =>
      obtain ⟨g, owns, similar⟩ := ih others
      exact ⟨g, .idle fine idle owns, similar⟩
    | own fine backs readable contents others =>
      obtain ⟨g, owns, similar⟩ := ih others
      exact ⟨_, .own fine backs readable contents owns, similar.cons ..⟩
  | swap d e rest =>
    cases h with
    | idle fine idle others =>
      cases others with
      | idle fine' idle' others => exact ⟨_, .idle fine' idle' (.idle fine idle others), .refl _⟩
      | own fine' backs readable contents others =>
        exact ⟨_, .own fine' backs readable contents (.idle fine idle others), .refl _⟩
    | own fine backs readable contents others =>
      cases others with
      | idle fine' idle others =>
        exact ⟨_, .idle fine' idle (.own fine backs readable contents others), .refl _⟩
      | own fine' backs' readable' contents' others =>
        exact ⟨_, .own fine' backs' readable' contents' (.own fine backs readable contents others),
          .swap ..⟩
  | trans _ _ ih ih' =>
    obtain ⟨g, owns, similar⟩ := ih h
    obtain ⟨k, owns, similar'⟩ := ih' owns
    exact ⟨k, owns, similar.trans similar'⟩

end Owns

end Memory

end DerivedTypes
