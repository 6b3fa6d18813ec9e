import SeamLint.Output.Grid

set_option autoImplicit false

/-! # Consoles

Reports are printed by a console, which reads markup and draws tables. Which console that is, is up
to the program; `Console.ofLexicon` is one that reads markup with a lexicon.
-/

namespace SeamLint.Output

/-- What prints reports. -/
structure Console where
  /-- The text written so that it is taken literally. -/
  escape : String → String
  /-- A line of text with markup as it is printed, in colours or without. -/
  line : Bool → String → Except MarkupFault String
  /-- A table as it is printed, in colours or without. -/
  table : Bool → Grid → String

/-- The console that reads markup with a lexicon. -/
def Console.ofLexicon (lexicon : Lexicon) : Console where
  escape := Output.escape
  line := renderLine lexicon
  table color grid := grid.draw color

/-- The lexicon with the given pictures, in which a style goes by its name in lower case and no
parameters are refused. -/
def Lexicon.ofPictures (pictures : List (String × String)) : Lexicon where
  picture? name := (pictures.lookup (String.ofList name)).map String.toList
  style name := Text.lower (String.ofList (Text.trim name))
  refusal? _ := none

end SeamLint.Output
