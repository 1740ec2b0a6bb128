import DerivedTypes.StyledText

namespace DerivedTypes

/-!
# Escape codes

A terminal takes the escape codes out of a text and shows the rest. `Palette.erase` does the same
with the codes of one palette: it reads from left to right, and where a code begins it skips the
code.

All codes of the colours begin with the escape character. So a text without this character is left
alone, whatever follows it (`Palette.eraseChars_append`), a code disappears
(`Palette.eraseChars_code`), and spans of such texts look the same with colours, after erasing, as
without.

* `EscapeFree`: no escape character. It is kept by all the ways in which texts are put together;
* `Palette.erase_render`, `Palette.erase_renderLines`: coloured text without its codes is plain
  text.
-/

/-! ### Texts without escape characters -/

/-- The character with which escape codes begin. -/
def escape : Char := Char.ofNat 0x1b

/-- The text contains no escape character. -/
def EscapeFree (text : String) : Prop := escape ∉ text.toList

instance (text : String) : Decidable (EscapeFree text) := inferInstanceAs (Decidable (_ ∉ _))

namespace EscapeFree

variable {s t : String} {words : List String}

/-- One text after the other. -/
@[simp] theorem append_iff : EscapeFree (s ++ t) ↔ EscapeFree s ∧ EscapeFree t := by
  simp [EscapeFree, not_or]

/-- Words between separators. -/
theorem intercalate (separator : EscapeFree s) (each : ∀ word ∈ words, EscapeFree word) :
    EscapeFree (s.intercalate words) := by
  induction words with
  | nil => exact List.not_mem_nil
  | cons word rest ih =>
    have first := each word List.mem_cons_self
    have others := ih fun other mem => each other (List.mem_cons_of_mem _ mem)
    by_cases last : rest = []
    · subst last
      simpa using first
    · rw [String.intercalate_cons_of_ne_nil last]
      simp [first, separator, others]

/-- Words between commas. -/
theorem commaSeparated (each : ∀ word ∈ words, EscapeFree word) :
    EscapeFree (commaSeparated words) :=
  intercalate (by decide) each

/-- A word that may be missing. -/
theorem optional {present : Bool} (free : EscapeFree s) :
    ∀ word ∈ (if present then [s] else []), EscapeFree word := by
  cases present <;> simp [free]

/-- A word that stands for an empty list. -/
theorem unlessEmpty (free : EscapeFree s) (each : ∀ word ∈ words, EscapeFree word) :
    ∀ word ∈ (if words.isEmpty then [s] else words), EscapeFree word := by
  split
  · exact List.forall_mem_singleton.mpr free
  · exact each

/-- A number is made of digits. -/
@[simp] theorem repr_nat (n : Nat) : EscapeFree n.repr := by
  intro mem
  rw [Nat.toList_repr] at mem
  exact absurd (Nat.isDigit_of_mem_toDigits (by decide) (by decide) mem) (by decide)

/-- A number may have a sign. -/
@[simp] theorem repr_int (i : Int) : EscapeFree i.repr := by
  cases i with
  | ofNat n => exact repr_nat n
  | negSucc n => exact append_iff.mpr ⟨by decide, repr_nat (n + 1)⟩

end EscapeFree

/-! ### Erasing -/

/-- Characters without the given codes. At most `skip` of them still belong to a code that has
    begun. -/
def eraseCodes (codes : List (List Char)) : (skip : Nat) → List Char → List Char
  | _, [] => []
  | skip + 1, _ :: rest => eraseCodes codes skip rest
  | 0, c :: rest =>
    match codes.find? (·.isPrefixOf (c :: rest)) with
    | some code => eraseCodes codes (code.length - 1) rest
    | none => c :: eraseCodes codes 0 rest

namespace Palette

/-- The codes of a palette, as characters. -/
def codes (p : Palette) : List (List Char) :=
  ([p.typeName, p.value, p.note, p.reset].filter (· != "")).map (·.toList)

/-- Characters without the codes of a palette. -/
def eraseChars (p : Palette) (chars : List Char) : List Char :=
  eraseCodes p.codes 0 chars

/-- Text without the codes of a palette. -/
def erase (p : Palette) (text : String) : String :=
  .ofList (p.eraseChars text.toList)

/-- All codes of the colours begin with the escape character. -/
theorem head?_of_mem_codes : ∀ code ∈ colored.codes, code.head? = some escape := by
  decide

/-- A text without escape characters is left alone, whatever follows. -/
theorem eraseChars_append {text : String} (free : EscapeFree text) (rest : List Char) :
    colored.eraseChars (text.toList ++ rest) = text.toList ++ colored.eraseChars rest := by
  unfold EscapeFree at free
  generalize text.toList = chars at free
  induction chars with
  | nil => rfl
  | cons c chars ih =>
    rw [List.mem_cons, not_or] at free
    -- No code begins here, since its first character would be another one.
    have noCode : colored.codes.find? (·.isPrefixOf (c :: (chars ++ rest))) = none := by
      rw [List.find?_eq_none]
      intro code mem here
      have first := head?_of_mem_codes code mem
      cases code with
      | nil => simp at first
      | cons d code => simp_all
    rw [List.cons_append, eraseChars, eraseCodes, noCode, List.cons_append]
    exact congrArg _ (ih free.2)

/-- A code disappears. -/
theorem eraseChars_code {code : String} (mem : code.toList ∈ colored.codes) (rest : List Char) :
    colored.eraseChars (code.toList ++ rest) = colored.eraseChars rest := by
  generalize code.toList = chars at mem
  have all : colored.codes = ["\x1b[34m".toList, "\x1b[32m".toList, "\x1b[2m".toList,
    "\x1b[0m".toList] := rfl
  simp only [all, List.mem_cons, List.not_mem_nil, or_false] at mem
  rcases mem with rfl | rfl | rfl | rfl <;> rfl

/-- A text between a code and the one that ends it becomes the text. -/
theorem eraseChars_coded {code text : String} (mem : code.toList ∈ colored.codes)
    (free : EscapeFree text) (rest : List Char) :
    colored.eraseChars ((code ++ text ++ colored.reset).toList ++ rest) = text.toList ++
    colored.eraseChars rest := by
  simp only [String.toList_append, List.append_assoc]
  rw [eraseChars_code mem, eraseChars_append free, eraseChars_code (by decide)]

end Palette

/-! ### Styled text -/

/-- No span contains an escape character. -/
def StyledText.EscapeFree (text : StyledText) :
    Prop := ∀ span ∈ text, DerivedTypes.EscapeFree span.text

namespace Palette

/-- A span with its codes becomes the plain span. -/
theorem eraseChars_span {span : Span} (free : EscapeFree span.text) (rest : List Char) :
    colored.eraseChars ((span.render colored).toList ++ rest) =
      (span.render plain).toList ++ colored.eraseChars rest := by
  obtain ⟨ink, text⟩ := span
  have bare : ("" ++ text ++ "").toList = text.toList := by simp
  cases ink with
  | plain => exact eraseChars_append free rest
  | typeName | value | note =>
    exact (eraseChars_coded (by decide) free rest).trans (by rw [← bare]; rfl)

/-- Spans with their codes become the plain spans. -/
theorem eraseChars_render {text : StyledText} (free : text.EscapeFree) (rest : List Char) :
    colored.eraseChars ((text.render colored).toList ++ rest) =
      (text.render plain).toList ++ colored.eraseChars rest := by
  -- The rest is general: it is the text of the spans behind the first one.
  induction text with
  | nil => rfl
  | cons span spans ih =>
    have split (p : Palette) : StyledText.render p (span :: spans) = span.render p ++
        StyledText.render p spans := by
      simp [StyledText.render]
    simp only [split, String.toList_append, List.append_assoc]
    rw [eraseChars_span (free span List.mem_cons_self), ih fun other mem =>
      free other (List.mem_cons_of_mem _ mem)]

/-- Coloured text without its codes is plain text. -/
theorem erase_render {text : StyledText} (free : text.EscapeFree) :
    colored.erase (text.render colored) = text.render plain := by
  have whole := eraseChars_render free []
  rw [List.append_nil] at whole
  rw [erase, whole, show colored.eraseChars [] = [] from rfl, List.append_nil, String.ofList_toList]

-- Codes of other colours stay.
example : colored.erase "\x1b[34mTYPE\x1b[0m(\x1b[31mt\x1b[0m)" = "TYPE(\x1b[31mt)" := by
  decide +kernel

/-- Coloured lines without their codes are plain lines. -/
theorem erase_renderLines {lines : List StyledText} (free : ∀ line ∈ lines, line.EscapeFree) :
    colored.erase (StyledText.renderLines colored lines) = StyledText.renderLines plain lines := by
  have chars : colored.eraseChars (StyledText.renderLines colored lines).toList =
      (StyledText.renderLines plain lines).toList := by
    induction lines with
    | nil => rfl
    | cons line rest ih =>
      have split (p : Palette) : (StyledText.renderLines p (line :: rest)).toList =
          (line.render p).toList ++ ("\n".toList ++ (StyledText.renderLines p rest).toList) := by
        simp [StyledText.renderLines]
      rw [split, split, eraseChars_render (free line List.mem_cons_self),
        eraseChars_append (by decide), ih fun other mem => free other (List.mem_cons_of_mem _ mem)]
  rw [erase, chars, String.ofList_toList]

end Palette

end DerivedTypes
