namespace DerivedTypes

/-!
# Styled text

Dumps and traces are built as spans of text, each with an ink, and rendered with a palette at the
end. So the text itself never depends on whether colours are wanted.

* `Ink`: what a span is, which decides its colour;
* `Palette.colored`, `Palette.plain`: escape codes, or none;
* `StyledText.render`.
-/

/-- What a span of text shows. -/
inductive Ink where
  /-- The words around the rest, never coloured. -/
  | plain
  | typeName
  /-- A number: a size, an offset, a parameter value. -/
  | value
  /-- Flags and roles. -/
  | note
deriving DecidableEq, Repr, Inhabited

/-- The escape codes that open each ink, and the one that ends them all. -/
structure Palette where
  typeName : String
  value : String
  note : String
  reset : String
deriving DecidableEq, Repr, Inhabited

namespace Palette

/-- Blue type names, green values, dim notes. -/
def colored : Palette where
  typeName := "\x1b[34m"
  value := "\x1b[32m"
  note := "\x1b[2m"
  reset := "\x1b[0m"

/-- No escape codes. -/
def plain : Palette where
  typeName := ""
  value := ""
  note := ""
  reset := ""

/-- The palette for a wish to have colours. -/
def ofEnabled : Bool → Palette
  | true => colored
  | false => plain

/-- Colours are on when the first ink has a code. -/
def isEnabled (p : Palette) : Bool :=
  p.typeName != ""

end Palette

/-- Colours are off unless asked for. -/
def Palette.preset : Palette := .plain

/-- A piece of text in one ink. -/
structure Span where
  ink : Ink
  text : String
deriving DecidableEq, Repr, Inhabited

namespace Span

/-- Words in no colour. -/
def plain (text : String) : Span := ⟨.plain, text⟩

/-- The name of a type. -/
def typeName (text : String) : Span := ⟨.typeName, text⟩

/-- A number. -/
def value (i : Int) : Span := ⟨.value, toString i⟩

/-- A note on flags or roles. -/
def note (text : String) : Span := ⟨.note, text⟩

/-- The text of a span between the codes of its ink. -/
def render (p : Palette) (s : Span) : String :=
  match s.ink with
  | .plain => s.text
  | .typeName => p.typeName ++ s.text ++ p.reset
  | .value => p.value ++ s.text ++ p.reset
  | .note => p.note ++ s.text ++ p.reset

end Span

/-- Spans in reading order. -/
abbrev StyledText := List Span

namespace StyledText

/-- The spans one after another. -/
def render (p : Palette) (text : StyledText) : String :=
  String.join (text.map (Span.render p))

/-- Every line, each with its line end. -/
def renderLines (p : Palette) (lines : List StyledText) : String :=
  String.join (lines.map fun line => render p line ++ "\n")

end StyledText

/-- Words separated by commas. -/
def commaSeparated (words : List String) : String :=
  ", ".intercalate words

end DerivedTypes
